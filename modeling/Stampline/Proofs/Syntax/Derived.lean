import Stampline.Proofs.Syntax.Takes
import Stampline.Proofs.Syntax.Statements
import Stampline.Pipeline

/-!
# Programs that are read derive from the grammar

Whatever is read of lexemes is derived from those lexemes. Loops gather what they read from the left,
so what is said of them is that derivations grow by the lexemes of each round.
-/

namespace Stampline

open Stampline.Parser

variable {b : Nat} {s s₀ : Input}

/-! ## Expressions -/

/-- What a reader reads are expressions of the strength `k` with `b` levels of nesting left. -/
def TakesExpr (p : Parser Operand) (b : Nat) (k : Strength) : Prop :=
  ∀ s, Takes p s fun used o => DerivesExpr b k used o.expr

/-- Lexemes that begin an expression do not begin with layout. -/
theorem DerivesExpr.first {k : Strength} {used : List Lexeme} {e : Expr}
    (h : DerivesExpr b k used e) : ∃ l ls, used = l :: ls ∧ l.token.isLayout = false := by
  obtain ⟨t, rest, htokens, ht, -⟩ := h.begin
  obtain ⟨l, ls, rfl, rfl, -⟩ := List.map_eq_cons_iff.1 htokens
  refine ⟨l, ls, rfl, ?_⟩
  cases hl : l.token with
  | newline => rw [hl] at ht; cases ht
  | indent => rw [hl] at ht; cases ht
  | dedent => rw [hl] at ht; cases ht
  | _ => rfl

/-- An expression, and what is read behind it, begins where it does. -/
theorem DerivesExpr.through {k : Strength} {ls more : List Lexeme} {e : Expr}
    (h : DerivesExpr b k ls e) (huses : s₀.Uses (ls ++ more) s) :
    s₀.next.span.through s.last = stretch (ls ++ more) := by
  obtain ⟨l, tail, rfl, hlayout⟩ := h.first
  exact huses.through hlayout

/-- What is read one level deeper, if there is a level left. -/
theorem takes_nested {α : Type} {q : Nat → Option (Parser α)} {p : Nat → Parser α}
    {P : Nat → List Lexeme → α → Prop} (hzero : q 0 = none) (hsucc : ∀ b, q (b + 1) = some (p b))
    (h : ∀ b', b = b' + 1 → Takes (p b') s (P b')) :
    Takes (nested (q b)) s fun used a => ∃ b', b = b' + 1 ∧ P b' used a := by
  cases b with
  | zero =>
    rw [hzero]
    exact .fail
  | succ b =>
    rw [hsucc]
    exact (h b rfl).imp fun _ _ h => ⟨b, rfl, h⟩

/-- What is read one level deeper are expressions. -/
def TakesInner (b : Nat) : Prop := ∀ b', b = b' + 1 → TakesExpr (expression b') b' .loosest

theorem takes_atom (hinner : TakesInner b) : TakesExpr (atom (inner b)) b .atom := by
  intro s
  refine Takes.take.bind fun used l s' _ hl => ?_
  obtain ⟨-, hused⟩ := hl
  obtain ⟨token, span⟩ := l
  cases token with
  | integer value =>
    obtain rfl := hused (by simp)
    exact .pure .number
  | text value =>
    obtain rfl := hused (by simp)
    exact .pure .text
  | name id =>
    obtain rfl := hused (by simp)
    exact .pure .name
  | symbol symbol =>
    obtain rfl := hused (by simp)
    cases symbol with
    | leftParen =>
      refine (takes_nested rfl (fun _ => rfl) fun b' hb => hinner b' hb _).bind
        fun used o s₁ _ ho => ?_
      obtain ⟨b', rfl, ho⟩ := ho
      refine (Takes.expect (by simp)).bind fun _ _ _ _ hclose => ?_
      obtain ⟨closing, rfl⟩ := hclose
      exact .pure (by simpa using DerivesExpr.parens ho)
    | _ => exact .failAt
  | _ => exact .failAt

/-! Arguments. -/

/-- What an argument adds to those before it. -/
def AddsArgument (b : Nat) (before : Arguments) (used : List Lexeme) (now : Arguments) : Prop :=
  (∃ e, DerivesExpr b .loosest used e ∧ before.keywords = [] ∧ now.keywords = [] ∧
    now.args = before.args ++ [e]) ∨
  ∃ id span assign ls e, used = ⟨.name id, span⟩ :: ⟨.symbol .assign, assign⟩ :: ls ∧
    DerivesExpr b .loosest ls e ∧ id ∉ before.keywords.map Keyword.name ∧
    now.args = before.args ∧ now.keywords = before.keywords ++ [.mk (stretch used) id e]

theorem takes_positional {value : Parser Operand} (hvalue : TakesExpr value b .loosest)
    (before : Arguments) (start : Span) :
    Takes (positional value before start) s (AddsArgument b before) := by
  unfold positional
  split
  · exact .failAt_bind
  · rename_i hnone
    refine (hvalue s).bind fun used v s₁ _ hv => .pure (.inl ⟨v.expr, ?_, ?_, ?_, rfl⟩)
    · rwa [List.append_nil]
    · simpa using hnone
    · simpa using hnone

theorem takes_argument {value : Parser Operand} (hvalue : TakesExpr value b .loosest)
    (before : Arguments) : Takes (argument value before) s (AddsArgument b before) := by
  refine Takes.peek (Takes.peekSecond ?_)
  split
  · rename_i id hname hassign
    refine (Takes.take_of_next hname (by simp)).bind fun used l s₁ huses₁ hl => ?_
    obtain ⟨-, span, rfl⟩ := hl
    have hnext : s₁.next.token = .symbol .assign := by
      rw [huses₁.rest] at hassign
      exact hassign
    refine (Takes.take_of_next hnext (by simp)).bind fun used l s₂ huses₂ hl => ?_
    obtain ⟨-, assign, rfl⟩ := hl
    dsimp only
    split
    · exact .failAt_bind
    · rename_i hfresh
      refine (hvalue s₂).bind fun ls v s₃ huses₃ hv => Takes.lastSpan (.pure (.inr ?_))
      have huses := huses₁.trans (huses₂.trans huses₃)
      refine ⟨id, span, assign, ls, v.expr, by simp, hv, by simpa using hfresh, rfl, ?_⟩
      rw [huses.through rfl]
      simp
  · exact takes_positional hvalue before _

/-- What a list of arguments adds to those before it. -/
def AddsArguments (b : Nat) (before : Arguments) (used : List Lexeme) (all : Arguments) : Prop :=
  ∃ args keywords, all.args = before.args ++ args ∧ all.keywords = before.keywords ++ keywords ∧
    (before.keywords ≠ [] → args = []) ∧
    (∀ k ∈ keywords, k.name ∉ before.keywords.map Keyword.name) ∧
    DerivesArgs b used args keywords

/-- Nothing is added by no lexemes. -/
theorem AddsArguments.refl (before : Arguments) : AddsArguments b before [] before :=
  ⟨[], [], (List.append_nil _).symm, (List.append_nil _).symm, fun _ => rfl, List.forall_mem_nil _,
    .nil⟩

/-- An argument and what comes behind it are a list of arguments. -/
theorem AddsArgument.cons {before now all : Arguments} {used more : List Lexeme}
    (h : AddsArgument b before used now)
    (hmore : ∃ args keywords, all.args = now.args ++ args ∧ all.keywords = now.keywords ++ keywords ∧
      (now.keywords ≠ [] → args = []) ∧ (∀ k ∈ keywords, k.name ∉ now.keywords.map Keyword.name) ∧
      DerivesMoreArgs b more args keywords) : AddsArguments b before (used ++ more) all := by
  obtain ⟨args, keywords, hargs, hkeywords, hlast, hnew, hderives⟩ := hmore
  rcases h with ⟨e, he, hbefore, hnow, hadded⟩ |
    ⟨id, span, assign, ls, e, hused, he, hfresh, hadded, hnow⟩
  · refine ⟨e :: args, keywords, by simp [hargs, hadded], ?_, fun h => absurd hbefore h, ?_,
      .positional he hderives⟩
    · rw [hkeywords, hnow, hbefore]
    · simp [hbefore]
  · obtain rfl := hlast (by simp [hnow])
    refine ⟨[], .mk (stretch used) id e :: keywords, by rw [hargs, hadded], by simp [hkeywords, hnow],
      fun _ => rfl, ?_, .keyword he hused hderives ?_⟩
    · refine List.forall_mem_cons.2 ⟨hfresh, fun k hk hmem => hnew k hk ?_⟩
      simp only [hnow, List.map_append, List.mem_append]
      exact .inl hmem
    · intro hmem
      obtain ⟨k, hk, hname⟩ := List.mem_map.1 hmem
      refine hnew k hk ?_
      rw [hnow, List.map_append, hname]
      exact List.mem_append_right _ (.head _)

theorem takes_argumentsFrom {value : Parser Operand} (hvalue : TakesExpr value b .loosest)
    (bound : List Lexeme) (before : Arguments) :
    Takes (argumentsFrom value bound before) s (AddsArguments b before) := by
  induction bound generalizing s before with
  | nil => exact .pure (.refl before)
  | cons _ bound ih =>
    refine Takes.peek ?_
    split
    · exact .pure (.refl before)
    · refine (takes_argument hvalue before).bind fun used now s₁ _ hnow => ?_
      refine Takes.eat (by simp) (fun span s₂ _ => ?_) (.pure (hnow.cons ?_))
      · refine (ih now).imp fun more all hall => hnow.cons ?_
        obtain ⟨args, keywords, hargs, hkeywords, hlast, hnew, hderives⟩ := hall
        exact ⟨args, keywords, hargs, hkeywords, hlast, hnew, .cons hderives⟩
      · exact ⟨[], [], (List.append_nil _).symm, (List.append_nil _).symm, fun _ => rfl,
          List.forall_mem_nil _, .nil⟩

theorem takes_arguments {value : Parser Operand} (hvalue : TakesExpr value b .loosest) :
    Takes (arguments value) s fun used all => ∃ inside closing,
      used = inside ++ [⟨.symbol .rightParen, closing⟩] ∧
        DerivesArgs b inside all.args all.keywords := by
  refine Takes.remaining ((takes_argumentsFrom hvalue _ {}).bind fun inside all s₁ _ hall => ?_)
  refine (Takes.expect (by simp)).bind fun _ _ _ _ hclose => ?_
  obtain ⟨closing, rfl⟩ := hclose
  obtain ⟨args, keywords, hargs, hkeywords, -, -, hderives⟩ := hall
  refine .pure ⟨inside, closing, by simp, ?_⟩
  rw [hargs, hkeywords]
  exact hderives

/-! Calls, attributes and signs. -/

theorem takes_postfixFrom (hinner : TakesInner b) (bound : List Lexeme) {ls : List Lexeme}
    {left : Operand} (huses : s₀.Uses ls s)
    (hleft : DerivesExpr b .postfixed ls left.expr) :
    Takes (postfixFrom (inner b) s₀.next.span bound left) s fun used o =>
      DerivesExpr b .postfixed (ls ++ used) o.expr := by
  induction bound generalizing s ls left with
  | nil => exact .pure (by rwa [List.append_nil])
  | cons _ bound ih =>
    refine Takes.peek ?_
    split
    · rename_i hnext
      refine (Takes.take_of_next hnext (by simp)).bind fun _ l s₁ huses₁ hl => ?_
      obtain ⟨-, opening, rfl⟩ := hl
      have harguments := @takes_nested b s₁ _ (fun b => (inner b).map arguments) _ _ rfl
        (fun _ => rfl) fun b' hb => takes_arguments (hinner b' hb)
      refine harguments.bind fun _ a s₂ huses₂ ha => Takes.lastSpan ?_
      obtain ⟨b', rfl, inside, closing, rfl, ha⟩ := ha
      have huses₂ := huses.trans (huses₁.trans huses₂)
      refine Takes.node.bind fun _ o s₃ huses₃ ho => ?_
      obtain ⟨rfl, rfl⟩ := ho
      rw [hleft.through huses₂]
      refine (ih (by simpa using huses₂.trans huses₃) (.call hleft ha rfl)).imp fun more o ho => ?_
      simpa using ho
    · rename_i hnext
      refine (Takes.take_of_next hnext (by simp)).bind fun _ l s₁ huses₁ hl => ?_
      obtain ⟨-, dot, rfl⟩ := hl
      refine Takes.expectName.bind fun _ id s₂ huses₂ hid => Takes.lastSpan ?_
      obtain ⟨place, rfl⟩ := hid
      have huses₂ := huses.trans (huses₁.trans huses₂)
      refine Takes.node.bind fun _ o s₃ huses₃ ho => ?_
      obtain ⟨rfl, rfl⟩ := ho
      rw [hleft.through huses₂]
      refine (ih (by simpa using huses₂.trans huses₃) (.member hleft rfl)).imp fun more o ho => ?_
      simpa using ho
    · exact .pure (by rwa [List.append_nil])

theorem takes_postfixed (hinner : TakesInner b) : TakesExpr (postfixed (inner b)) b .postfixed := by
  intro s
  refine Takes.peek ((takes_atom hinner s).bind fun used o s' huses ho => Takes.remaining ?_)
  exact takes_postfixFrom hinner _ huses (.loosen ho)

theorem takes_signed (hdeeper : ∀ b', b = b' + 1 → TakesExpr (negation b') b' .sign)
    (hinner : TakesInner b) : TakesExpr (signed (deeper b) (inner b)) b .sign := by
  intro s
  refine Takes.peek ?_
  split
  · rename_i hnext
    refine (Takes.take_of_next hnext (by simp)).bind fun _ l s₁ huses₁ hl => ?_
    obtain ⟨-, span, rfl⟩ := hl
    refine (takes_nested rfl (fun _ => rfl) fun b' hb => hdeeper b' hb _).bind
      fun ls o s₂ huses₂ ho => Takes.lastSpan ?_
    obtain ⟨b', rfl, ho⟩ := ho
    rw [(huses₁.trans huses₂).through rfl]
    refine Takes.node.imp fun used o' ho' => ?_
    obtain ⟨rfl, rfl⟩ := ho'
    rw [List.append_nil]
    exact .negate ho rfl
  · exact (takes_postfixed hinner s).imp fun used o ho => .loosen ho

/-! Operators. -/

theorem productOp?_eq_some {t : Token} {op : BinaryOp} (h : productOp? t = some op) :
    t = .symbol op.symbol ∧ op.strength = .product := by
  unfold productOp? at h
  split at h <;> cases h <;> exact ⟨rfl, rfl⟩

theorem sumOp?_eq_some {t : Token} {op : BinaryOp} (h : sumOp? t = some op) :
    t = .symbol op.symbol ∧ op.strength = .sum := by
  unfold sumOp? at h
  split at h <;> cases h <;> exact ⟨rfl, rfl⟩

theorem comparison?_eq_some {t : Token} {op : Comparison} (h : comparison? t = some op) :
    t = .symbol op.symbol := by
  unfold comparison? at h
  split at h <;> cases h <;> rfl

/-- A node of two operands is made of no lexemes. -/
theorem takes_join {build : Option Span → Expr → Expr → Expr} {left right : Operand} :
    Takes (join build left right) s fun used o =>
      used = [] ∧ o.expr = build (Span.join left.expr.span right.expr.span) left.expr right.expr :=
  Takes.node.imp fun _ _ h => ⟨h.1, h.2 ▸ rfl⟩

section Chains

variable {op? : Token → Option BinaryOp} {operand : Parser Operand} {k : Strength}

theorem takes_chainFrom
    (hop : ∀ {t op}, op? t = some op → t = .symbol op.symbol ∧ op.strength = k)
    (hoperand : TakesExpr operand b k.tighter) (bound : List Lexeme) {ls : List Lexeme}
    {left : Operand} (hleft : DerivesExpr b k ls left.expr) :
    Takes (chainFrom op? operand bound left) s fun used o => DerivesExpr b k (ls ++ used) o.expr := by
  induction bound generalizing s ls left with
  | nil => exact .pure (by rwa [List.append_nil])
  | cons _ bound ih =>
    refine Takes.peek ?_
    split
    · exact .pure (by rwa [List.append_nil])
    · rename_i op hnext
      obtain ⟨hsymbol, rfl⟩ := hop hnext
      refine (Takes.take_of_next hsymbol (by simp)).bind fun _ l s₁ _ hl => ?_
      obtain ⟨-, span, rfl⟩ := hl
      refine (hoperand s₁).bind fun rs right s₂ _ hright => ?_
      refine takes_join.bind fun used o s₃ _ ho => ?_
      obtain ⟨rfl, ho⟩ := ho
      have hboth : DerivesExpr b op.strength (ls ++ ⟨.symbol op.symbol, span⟩ :: rs) o.expr := by
        rw [ho]
        exact .binary hleft hright
      refine (ih hboth).imp fun more o ho => ?_
      simpa using ho

theorem takes_chain
    (hop : ∀ {t op}, op? t = some op → t = .symbol op.symbol ∧ op.strength = k)
    (hoperand : TakesExpr operand b k.tighter) : TakesExpr (chain op? operand) b k := fun s =>
  (hoperand s).bind fun _ _ _ _ ho => Takes.remaining (takes_chainFrom hop hoperand _ (.loosen ho))

end Chains

theorem takes_sum {operand : Parser Operand} (hoperand : TakesExpr operand b .sign) :
    TakesExpr (sum operand) b .sum :=
  takes_chain sumOp?_eq_some (takes_chain productOp?_eq_some hoperand)

theorem takes_compared {operand : Parser Operand} (hoperand : TakesExpr operand b .sign) :
    TakesExpr (compared operand) b .comparison := by
  intro s
  refine (takes_sum hoperand s).bind fun ls left s₁ _ hleft => Takes.peek ?_
  split
  · exact .pure (.loosen (by rwa [List.append_nil]))
  · rename_i op hnext
    refine (Takes.take_of_next (comparison?_eq_some hnext) (by simp)).bind fun _ l s₂ _ hl => ?_
    obtain ⟨-, span, rfl⟩ := hl
    refine (takes_sum hoperand s₂).bind fun rs right s₃ _ hright => Takes.peek ?_
    dsimp only
    split
    · exact .fail_bind
    · refine takes_join.imp fun used o ho => ?_
      obtain ⟨rfl, ho⟩ := ho
      rw [ho]
      simpa using DerivesExpr.compare hleft hright

/-- What is read as an expression or as a negation derives from the grammar. -/
theorem takes_negation_expression :
    ∀ b, TakesExpr (negation b) b .sign ∧ TakesExpr (expression b) b .loosest := by
  intro b
  induction b with
  | zero =>
    have hnegation : TakesExpr (negation 0) 0 .sign := by
      rw [negation_eq]
      refine takes_signed ?_ ?_ <;> (intro b' hb; cases hb)
    refine ⟨hnegation, fun s => ?_⟩
    rw [expression_eq]
    exact (takes_compared hnegation s).imp fun _ _ h => .loosen h
  | succ b ih =>
    have hnegation : TakesExpr (negation (b + 1)) (b + 1) .sign := by
      rw [negation_eq]
      refine takes_signed ?_ ?_ <;> (intro b' hb; cases hb)
      · exact ih.1
      · exact ih.2
    refine ⟨hnegation, fun s => ?_⟩
    rw [expression_eq]
    exact (takes_compared hnegation s).imp fun _ _ h => .loosen h

theorem takes_expression (b : Nat) : TakesExpr (expression b) b .loosest :=
  (takes_negation_expression b).2

/-! ## Statements of a line -/

theorem takes_simple : Takes (simple (expression b)) s (DerivesSimple b) := by
  refine Takes.peek ?_
  split
  · rename_i hnext
    refine (Takes.take_of_next hnext (by simp)).bind fun _ l s₁ huses₁ hl => ?_
    obtain ⟨-, span, rfl⟩ := hl
    rw [huses₁.next]
    exact .pure .pass
  · rename_i hnext
    refine (Takes.take_of_next hnext (by simp)).bind fun _ l s₁ huses₁ hl => Takes.peek ?_
    obtain ⟨-, span, rfl⟩ := hl
    split
    · refine Takes.lastSpan ?_
      rw [huses₁.next, huses₁.last]
      exact .pure .giveZero
    · refine (takes_expression b s₁).bind fun ls value s₂ huses₂ hvalue => Takes.lastSpan ?_
      rw [(huses₁.trans huses₂).through rfl]
      refine .pure ?_
      rw [List.append_nil]
      exact .give hvalue rfl
  · refine (takes_expression b s).bind fun ls left s₁ huses₁ hleft => ?_
    refine Takes.eat (by simp) (fun span s₂ huses₂ => ?_) ?_
    · split
      · rename_i place id hname
        rw [hname] at hleft
        refine (takes_expression b s₂).bind fun rs value s₃ huses₃ hvalue => Takes.lastSpan ?_
        rw [hleft.through (huses₁.trans (huses₂.trans huses₃))]
        refine .pure ?_
        rw [List.append_nil]
        exact .assign hleft hvalue rfl
      · exact .failAt
    · refine .pure ?_
      rw [List.append_nil]
      exact .eval hleft

theorem takes_line : Takes (line (expression b)) s fun used stmt =>
    ∃ ls span, used = ls ++ [⟨.newline, span⟩] ∧ DerivesSimple b ls stmt := by
  refine takes_simple.bind fun ls stmt s₁ _ hstmt => ?_
  refine (Takes.expect (by simp)).bind fun _ _ s₂ _ hend => ?_
  obtain ⟨span, rfl⟩ := hend
  exact .pure ⟨ls, span, by rw [List.append_nil], hstmt⟩

/-! ## Statements of blocks -/

/-- Parameters are read behind those before them. -/
theorem takes_paramsFrom (bound : List Lexeme) (before : List Param) :
    Takes (paramsFrom bound before) s fun used all => ∃ params, all = before ++ params ∧
      (∀ p ∈ params, p.name ∉ before.map Param.name) ∧ DerivesParams used params := by
  induction bound generalizing s before with
  | nil => exact .pure ⟨[], (List.append_nil _).symm, List.forall_mem_nil _, .nil⟩
  | cons _ bound ih =>
    refine Takes.peek ?_
    split
    · exact .pure ⟨[], (List.append_nil _).symm, List.forall_mem_nil _, .nil⟩
    · refine Takes.expectName.bind fun _ id s₁ huses₁ hid => ?_
      obtain ⟨span, rfl⟩ := hid
      rw [huses₁.next]
      split
      · exact .failAt_bind
      · rename_i hfresh
        replace hfresh : id ∉ before.map Param.name := by simpa using hfresh
        refine Takes.eat (by simp) (fun comma s₂ _ => ?_) (.pure ?_)
        · refine (ih _).imp fun more all hall => ?_
          obtain ⟨params, rfl, hnew, hderives⟩ := hall
          refine ⟨⟨id, span⟩ :: params, by simp, ?_, .cons (.cons hderives) ?_⟩
          · refine List.forall_mem_cons.2 ⟨hfresh, fun p hp hmem => hnew p hp ?_⟩
            rw [List.map_append]
            exact List.mem_append_left _ hmem
          · intro hmem
            obtain ⟨p, hp, hname⟩ := List.mem_map.1 hmem
            refine hnew p hp ?_
            rw [List.map_append, hname]
            exact List.mem_append_right _ (.head _)
        · exact ⟨[⟨id, span⟩], rfl, List.forall_mem_singleton.2 hfresh, .cons .nil (by simp)⟩

/-- What is read of blocks and of conditionals with `b` levels of nesting left. -/
structure TakesBlocks (b : Nat) : Prop where
  suite : ∀ {s}, Takes (block b) s (DerivesSuite b)
  branch : ∀ {s word}, s.next.token = .reserved word →
    Takes (conditional b) s (DerivesBranch b word)

section Blocks

/-! What a block or a conditional holds is read with what is read one level deeper. -/

variable (hdeeper : ∀ b', b = b' + 1 → TakesBlocks b')

include hdeeper

theorem takes_definition (hnext : s.next.token = .reserved .define) :
    Takes (definition (bodies b)) s (DerivesStmt b) := by
  refine (Takes.take_of_next hnext (by simp)).bind fun _ l s₁ huses₁ hl => ?_
  obtain ⟨rfl, define, rfl⟩ := hl
  refine Takes.expectName.bind fun _ id s₂ huses₂ hid => ?_
  obtain ⟨name, rfl⟩ := hid
  refine (Takes.expect (by simp)).bind fun _ _ s₃ huses₃ hopen => Takes.remaining ?_
  obtain ⟨opening, rfl⟩ := hopen
  refine (takes_paramsFrom _ []).bind fun inside params s₄ huses₄ hparams => ?_
  obtain ⟨_, rfl, -, hparams⟩ := hparams
  refine (Takes.expect (by simp)).bind fun _ _ s₅ huses₅ hclose => ?_
  obtain ⟨closing, rfl⟩ := hclose
  refine (Takes.expect (by simp)).bind fun _ _ s₆ huses₆ hcolon => ?_
  obtain ⟨colon, rfl⟩ := hcolon
  refine (takes_nested rfl (fun _ => rfl) fun b' hb => (hdeeper b' hb).suite).bind
    fun ls body s₇ huses₇ hbody => Takes.lastSpan ?_
  obtain ⟨b', rfl, hbody⟩ := hbody
  have huses := huses₁.trans (huses₂.trans (huses₃.trans (huses₄.trans (huses₅.trans
    (huses₆.trans huses₇)))))
  rw [huses.through rfl]
  refine .pure ?_
  rw [List.append_nil]
  exact .define hparams hbody rfl

theorem takes_repetition (hnext : s.next.token = .reserved .repeating) :
    Takes (repetition (expression b) (bodies b)) s (DerivesStmt b) := by
  refine (Takes.take_of_next hnext (by simp)).bind fun _ l s₁ huses₁ hl => ?_
  obtain ⟨rfl, word, rfl⟩ := hl
  refine (takes_expression b s₁).bind fun ts test s₂ huses₂ htest => ?_
  refine (Takes.expect (by simp)).bind fun _ _ s₃ huses₃ hcolon => ?_
  obtain ⟨colon, rfl⟩ := hcolon
  refine (takes_nested rfl (fun _ => rfl) fun b' hb => (hdeeper b' hb).suite).bind
    fun ls body s₄ huses₄ hbody => Takes.lastSpan ?_
  obtain ⟨b', rfl, hbody⟩ := hbody
  rw [(huses₁.trans (huses₂.trans (huses₃.trans huses₄))).through rfl]
  refine .pure ?_
  rw [List.append_nil]
  exact .loop htest hbody rfl

theorem takes_alternative :
    Takes (alternative (bodies b) (links b)) s (DerivesElse b) := by
  refine Takes.peek ?_
  split
  · rename_i hnext
    rw [← bind_pure_comp]
    refine (takes_nested rfl (fun _ => rfl) fun b' hb => (hdeeper b' hb).branch hnext).bind
      fun used link s₁ _ hlink => .pure ?_
    obtain ⟨b', rfl, hlink⟩ := hlink
    rw [List.append_nil]
    exact .link hlink
  · rename_i hnext
    refine (Takes.take_of_next hnext (by simp)).bind fun _ l s₁ _ hl => ?_
    obtain ⟨-, word, rfl⟩ := hl
    refine (Takes.expect (by simp)).bind fun _ _ s₂ _ hcolon => ?_
    obtain ⟨colon, rfl⟩ := hcolon
    refine (takes_nested rfl (fun _ => rfl) fun b' hb => (hdeeper b' hb).suite).imp
      fun ls block hblock => ?_
    obtain ⟨b', rfl, hblock⟩ := hblock
    exact .otherwise hblock
  · exact .pure .absent

theorem takes_conditional {word : Reserved} (hnext : s.next.token = .reserved word) :
    Takes (conditionalOf (expression b) (bodies b) (links b)) s (DerivesBranch b word) := by
  refine (Takes.take_of_next hnext (by simp)).bind fun _ l s₁ huses₁ hl => ?_
  obtain ⟨rfl, span, rfl⟩ := hl
  refine (takes_expression b s₁).bind fun ts test s₂ huses₂ htest => ?_
  refine (Takes.expect (by simp)).bind fun _ _ s₃ huses₃ hcolon => ?_
  obtain ⟨colon, rfl⟩ := hcolon
  refine (takes_nested rfl (fun _ => rfl) fun b' hb => (hdeeper b' hb).suite).bind
    fun ls body s₄ huses₄ hbody => ?_
  obtain ⟨b', rfl, hbody⟩ := hbody
  refine (takes_alternative hdeeper).bind fun rs orelse s₅ huses₅ horelse => Takes.lastSpan ?_
  have huses := huses₁.trans (huses₂.trans (huses₃.trans (huses₄.trans huses₅)))
  rw [huses.through rfl]
  refine .pure ?_
  rw [List.append_nil]
  exact .mk htest hbody horelse rfl

theorem takes_statement : Takes (statement b) s (DerivesStmt b) := by
  rw [statement_eq]
  refine Takes.peek ?_
  split
  · exact takes_definition hdeeper ‹_›
  · exact (takes_conditional hdeeper ‹_›).imp fun _ _ h => .branch h
  · exact takes_repetition hdeeper ‹_›
  · refine takes_line.imp fun _ stmt h => ?_
    obtain ⟨ls, span, rfl, h⟩ := h
    exact .line h

/-- Every round of the loop reads a lexeme, so the loop ends with the block. -/
theorem takes_statementsFrom (bound : List Lexeme) (before : List Stmt)
    (hbound : s.rest.length ≤ bound.length) :
    Takes (statementsFrom (statement b) bound before) s fun used all =>
      ∃ ls dedent block, used = ls ++ [⟨.dedent, dedent⟩] ∧ all = before.reverse ++ block ∧
        DerivesBlock b ls block := by
  induction bound generalizing s before with
  | nil =>
    intro hs
    obtain ⟨rest, hrest⟩ := hs.rest_eq
    simp [hrest] at hbound
  | cons _ bound ih =>
    refine Takes.eat (by simp) (fun dedent s₁ _ => ?_) ?_
    · exact .pure ⟨[], dedent, [], rfl, (List.append_nil _).symm, .nil⟩
    · refine (takes_statement hdeeper).bind fun used stmt s₁ huses hstmt => ?_
      have hlength : s₁.rest.length ≤ bound.length := by
        have hpos := List.length_pos_iff.2 hstmt.ne_nil
        rw [huses.rest, List.length_append, List.length_cons] at hbound
        omega
      refine (ih _ hlength).imp fun more all hall => ?_
      obtain ⟨ls, dedent, block, rfl, rfl, hblock⟩ := hall
      exact ⟨used ++ ls, dedent, stmt :: block, by simp, by simp, .cons hstmt hblock⟩

theorem takes_block : Takes (block b) s (DerivesSuite b) := by
  rw [block_eq]
  refine Takes.eat (by simp) (fun newline s₁ huses₁ => ?_) ?_
  · intro hs₁
    refine (Takes.expect (by simp)).bind (fun _ _ s₂ huses₂ hopen => Takes.remaining ?_) hs₁
    obtain ⟨indent, rfl⟩ := hopen
    refine (takes_statementsFrom hdeeper s₂.rest [] (Nat.le_refl _)).imp_of_uses
      fun used all s₃ huses₃ hall => ?_
    obtain ⟨ls, dedent, block, rfl, rfl, hblock⟩ := hall
    refine .block hblock ?_
    rintro rfl
    -- No block is closed where it is opened.
    cases hblock
    have hsound := hs₁.sound
    rw [Input.tokens, huses₂.rest, huses₃.rest] at hsound
    obtain ⟨t, ts, htokens, ht⟩ := hsound.opened
    exact ht (List.cons.inj htokens).1.symm
  · refine takes_line.bind fun used stmt s₁ _ hstmt => .pure ?_
    obtain ⟨ls, span, rfl, hstmt⟩ := hstmt
    rw [List.append_nil]
    exact .line hstmt

end Blocks

/-- What is read as blocks and as conditionals derives from the grammar. -/
theorem takesBlocks : ∀ b, TakesBlocks b := by
  intro b
  induction b with
  | zero =>
    have hdeeper : ∀ b', 0 = b' + 1 → TakesBlocks b' := by
      intro b' hb
      cases hb
    refine ⟨takes_block hdeeper, fun hnext => ?_⟩
    rw [conditional_eq]
    exact takes_conditional hdeeper hnext
  | succ b ih =>
    have hdeeper : ∀ b', b + 1 = b' + 1 → TakesBlocks b' := by
      intro b' hb
      cases hb
      exact ih
    refine ⟨takes_block hdeeper, fun hnext => ?_⟩
    rw [conditional_eq]
    exact takes_conditional hdeeper hnext

/-! ## Programs -/

/-- Every round of the loop reads a lexeme, so the loop ends with the input. -/
theorem takes_programFrom (bound : List Lexeme) (before : List Stmt)
    (hbound : s.rest.length ≤ bound.length) :
    Takes (programFrom (statement maxNesting) bound before) s fun _ all =>
      ∃ p, all = before.reverse ++ p ∧ DerivesProgram s.rest p := by
  induction bound generalizing s before with
  | nil =>
    intro hs
    obtain ⟨rest, hrest⟩ := hs.rest_eq
    simp [hrest] at hbound
  | cons _ bound ih =>
    rw [List.length_cons] at hbound
    refine Takes.peek ?_
    split
    · rename_i hnext
      intro hs
      refine Takes.pure ⟨[], (List.append_nil _).symm, ?_⟩ hs
      rw [hs.rest_of_end hnext]
      generalize s.next = l at hnext
      obtain ⟨token, span⟩ := l
      obtain rfl : token = .endOfInput := hnext
      exact .done
    · refine Takes.eat (by simp) (fun newline s₁ huses => ?_) ?_
      · rw [huses.rest] at hbound ⊢
        refine (ih _ (by simpa using hbound)).imp fun _ all hall => ?_
        obtain ⟨p, hall, hp⟩ := hall
        exact ⟨p, hall, .newline hp⟩
      · refine (takes_statement fun b' _ => takesBlocks b').bind fun used stmt s₁ huses hstmt => ?_
        have hpos := List.length_pos_iff.2 hstmt.ne_nil
        rw [huses.rest] at hbound ⊢
        rw [List.length_append] at hbound
        refine (ih _ (by omega)).imp fun _ all hall => ?_
        obtain ⟨p, rfl, hp⟩ := hall
        exact ⟨stmt :: p, by simp, .stmt hstmt hp⟩

/-- A program that is read derives from the lexemes of its text. -/
theorem derives_of_parseLexemes {ls : List Lexeme} {p : Program}
    (hls : Input.Scanned ⟨ls, .root⟩) (h : parseLexemes ls = .ok p) : DerivesProgram ls p := by
  unfold parseLexemes at h
  cases hrun : (program ls).run ⟨ls, .root⟩ with
  | error e =>
    rw [hrun] at h
    cases h
  | ok r =>
    rw [hrun] at h
    obtain rfl := Except.ok.inj h
    obtain ⟨-, -, p, hp, hderives⟩ := takes_programFrom ls [] (Nat.le_refl _) hls r.1 r.2 hrun
    show DerivesProgram ls r.1
    rw [hp]
    exact hderives

end Stampline
