import Stampline.Proofs.Syntax.Forms
import Stampline.Proofs.Syntax.Grammar
import Stampline.Syntax.Locate

/-!
# Derived expressions are read

The lexemes of an expression that derives from the grammar are read as that expression, provided that
it is not too high. The readers look at tokens only, and so does what is said of them here.
-/

namespace Stampline

open Stampline.Parser

/-- What was read is an expression up to where it stands, and every node of it has a place. -/
structure Matches (e : Expr) (o : Operand) : Prop where
  erase : o.expr.erase = e.erase
  height : o.height = e.height
  located : o.expr.firstUnlocated? = none

theorem Begin.ne_nil {ts : List Token} : Begin ts → ts ≠ []
  | ⟨_, _, h, _⟩ => h ▸ List.cons_ne_nil _ _

theorem Matches.exists_span {e : Expr} {o : Operand} (h : Matches e o) :
    ∃ span, o.expr.span = some span := by
  have hlocated := h.located
  cases hspan : o.expr.span with
  | some span => exact ⟨span, rfl⟩
  | none =>
    revert hlocated
    cases he : o.expr <;> simp_all [Expr.firstUnlocated?, Expr.span]

/-! ## Operators -/

/-- What a node of two operands is like, given what its operands are like. -/
def Joins (build : Option Span → Expr → Expr → Expr) (left right e : Expr) : Prop :=
  (∀ span l r, l.erase = left.erase → r.erase = right.erase → (build span l r).erase = e.erase) ∧
    (∀ span l r, l.firstUnlocated? = none → r.firstUnlocated? = none →
      (build (some span) l r).firstUnlocated? = none) ∧
    e.height = max left.height right.height + 1

/-- Two operands are joined by an operator. -/
theorem reads_join {build : Option Span → Expr → Expr → Expr} {left right e : Expr}
    {o o' : Operand} {s : Input} {ts : List Token} (hbuild : Joins build left right e)
    (hs : s.tokens = ts) (ho : Matches left o) (ho' : Matches right o')
    (hheight : e.height ≤ maxNesting) : Reads (join build o o') s ts (Matches e) := by
  obtain ⟨herase, hlocated, he⟩ := hbuild
  obtain ⟨span, hspan⟩ := ho.exists_span
  obtain ⟨span', hspan'⟩ := ho'.exists_span
  unfold join
  rw [hspan, hspan', Span.join, ho.height, ho'.height, ← he]
  refine (Reads.node _ hs hheight).imp ?_
  rintro _ rfl
  exact ⟨herase _ _ _ ho.erase ho'.erase, rfl, hlocated _ _ _ ho.located ho'.located⟩

theorem joins_binary {span : Option Span} (op : BinaryOp) (left right : Expr) :
    Joins (fun s => .binary s op) left right (.binary span op left right) :=
  ⟨fun _ _ _ hl hr => by simp only [Expr.erase, hl, hr],
    fun _ _ _ hl hr => by simp [Expr.firstUnlocated?, hl, hr], rfl⟩

theorem joins_compare {span : Option Span} (op : Comparison) (left right : Expr) :
    Joins (fun s => .compare s op) left right (.compare span op left right) :=
  ⟨fun _ _ _ hl hr => by simp only [Expr.erase, hl, hr],
    fun _ _ _ hl hr => by simp [Expr.firstUnlocated?, hl, hr], rfl⟩

/-- An operator and its right operand are one round of a chain. -/
theorem continues_operator {span : Option Span} {op? : Token → Option BinaryOp}
    {p operand : Parser Operand} {op : BinaryOp} {left right : Expr} {s : Input}
    {toks rest : List Token} {t : Token} (hop : op? t = some op) (ht : t ≠ .endOfInput)
    (h : Continues p (fun _ => chainFrom op? operand) s (t :: (toks ++ rest)) (Matches left))
    (hright : ∀ s : Input, s.tokens = toks ++ rest → Reads operand s rest (Matches right))
    (hheight : (Expr.binary span op left right).height ≤ maxNesting) :
    Continues p (fun _ => chainFrom op? operand) s rest (Matches (.binary span op left right)) := by
  refine h.round (fun start l bound o s₀ hs₀ ho => ?_)
    (by simp only [List.length_cons, List.length_append]; omega)
  obtain ⟨l₁, s₁, hs₁, hl, hpeek⟩ := (Reads.peek hs₀).bind_eq
  obtain ⟨_, s₂, hs₂, -, htake⟩ := (Reads.take hs₁ ht).bind_eq
  obtain ⟨o', s₃, hs₃, ho', hoperand⟩ := (hright s₂ hs₂).bind_eq
  obtain ⟨o'', s₄, hs₄, ho'', hjoin⟩ :=
    (reads_join (joins_binary op left right) hs₃ ho ho' hheight).bind_eq
  refine ⟨o'', s₄, ?_, hs₄, ho''⟩
  rw [chainFrom]
  simp only [monadLift_self, hpeek, hl, hop]
  rw [htake, hoperand, hjoin]

theorem productOp?_symbol {op : BinaryOp} (h : op.strength = .product) :
    productOp? (.symbol op.symbol) = some op := by
  cases op <;> first | rfl | simp [BinaryOp.strength] at h

theorem sumOp?_symbol {op : BinaryOp} (h : op.strength = .sum) :
    sumOp? (.symbol op.symbol) = some op := by
  cases op <;> first | rfl | simp [BinaryOp.strength] at h

theorem comparison?_symbol (op : Comparison) : comparison? (.symbol op.symbol) = some op := by
  cases op <;> rfl

theorem Comparison.grip_lt (op : Comparison) : Token.grip (.symbol op.symbol) < 2 := by
  cases op <;> decide

theorem BinaryOp.grip_lt (op : BinaryOp) {rank : Nat} (h : op.strength.rank < rank) :
    Token.grip (.symbol op.symbol) < rank := by
  cases op <;> exact h

theorem BinaryOp.strength_eq (op : BinaryOp) : op.strength = .sum ∨ op.strength = .product := by
  cases op <;> simp [BinaryOp.strength]

section Nodes

variable {b : Nat} {span : Option Span} {toks toks' : List Token}

theorem goes_number (value : Int64) :
    Goes b .atom [.integer value] (Matches (.number span value)) := by
  intro s rest hs
  refine (Reads.take hs (by simp)).bind fun l s₁ hs₁ hl => ?_
  simp only [hl]
  exact .pure hs₁ ⟨rfl, rfl, rfl⟩

theorem goes_text (value : String) : Goes b .atom [.text value] (Matches (.text span value)) := by
  intro s rest hs
  refine (Reads.take hs (by simp)).bind fun l s₁ hs₁ hl => ?_
  simp only [hl]
  exact .pure hs₁ ⟨rfl, rfl, rfl⟩

theorem goes_name (id : String) : Goes b .atom [.name id] (Matches (.name span id)) := by
  intro s rest hs
  refine (Reads.take hs (by simp)).bind fun l s₁ hs₁ hl => ?_
  simp only [hl]
  exact .pure hs₁ ⟨rfl, rfl, rfl⟩

theorem goes_member {receiver : Expr} {id : String} (h : Goes b .postfixed toks (Matches receiver))
    (hheight : receiver.height + 1 ≤ maxNesting) :
    Goes b .postfixed (toks ++ [.symbol .dot, .name id]) (Matches (.member span receiver id)) := by
  intro s rest hs hrest
  have hreceiver := h s (.symbol .dot :: .name id :: rest) (by simpa using hs) (by simp)
  refine hreceiver.round (fun start l bound o s₀ hs₀ ho => ?_)
    (by simp only [List.length_cons]; omega)
  obtain ⟨l₁, s₁, hs₁, hl, hpeek⟩ := (Reads.peek hs₀).bind_eq
  obtain ⟨_, s₂, hs₂, -, htake⟩ := (Reads.take hs₁ (by simp)).bind_eq
  obtain ⟨id', s₃, hs₃, rfl, hname⟩ := (Reads.expectName hs₂).bind_eq
  obtain ⟨last, s₄, hs₄, -, hlast⟩ := (Reads.lastSpan hs₃).bind_eq
  obtain ⟨o', s₅, hs₅, rfl, hnode⟩ := (Reads.node (.member (start.through last) o.expr id')
    hs₄ (ho.height ▸ hheight)).bind_eq
  refine ⟨⟨.member (start.through last) o.expr id', o.height + 1⟩, s₅, ?_, hs₅, ?_, ?_, ?_⟩
  · rw [postfixFrom]
    simp only [monadLift_self, hpeek, hl]
    rw [htake, hname, hlast, hnode]
  · simp only [Expr.erase, ho.erase]
  · simp only [Expr.height, ho.height]
  · simpa [Expr.firstUnlocated?] using ho.located

theorem goes_negate {operand : Expr} (h : Goes b .sign toks (Matches operand))
    (hheight : operand.height + 1 ≤ maxNesting) :
    Goes (b + 1) .sign (.symbol .minus :: toks) (Matches (.negate span operand)) := by
  intro s rest hs hrest
  show Reads (negation (b + 1)) s rest _
  rw [negation_eq]
  refine (Reads.peek hs).bind fun l s₁ hs₁ hl => ?_
  simp only [hl, if_true]
  refine (Reads.take hs₁ (by simp)).bind fun _ s₂ hs₂ _ => ?_
  refine (h.reads hs₂ hrest).bind fun o s₃ hs₃ ho => ?_
  refine (Reads.lastSpan hs₃).bind fun last s₄ hs₄ _ => ?_
  refine (Reads.node _ hs₄ (ho.height ▸ hheight)).imp ?_
  rintro _ rfl
  refine ⟨?_, ?_, ?_⟩
  · simp only [Expr.erase, ho.erase]
  · simp only [Expr.height, ho.height]
  · simpa [Expr.firstUnlocated?] using ho.located

theorem goes_binary {op : BinaryOp} {left right : Expr}
    (hleft : Goes b op.strength toks (Matches left))
    (hright : Goes b op.strength.tighter toks' (Matches right))
    (hheight : (Expr.binary span op left right).height ≤ maxNesting) :
    Goes b op.strength (toks ++ .symbol op.symbol :: toks')
      (Matches (.binary span op left right)) := by
  intro s rest hs
  rw [List.append_assoc, List.cons_append] at hs
  rcases op.strength_eq with h | h <;> rw [h] at hleft hright ⊢ <;> intro hrest
  · refine continues_operator (sumOp?_symbol h) (by simp) (hleft s _ hs ?_)
      (fun s' hs' => hright.reads hs' hrest) hheight
    exact op.grip_lt (h ▸ by decide)
  · refine continues_operator (productOp?_symbol h) (by simp) (hleft s _ hs ?_)
      (fun s' hs' => hright.reads hs' hrest) hheight
    exact op.grip_lt (h ▸ by decide)

theorem goes_compare {op : Comparison} {left right : Expr}
    (hleft : Goes b .sum toks (Matches left)) (hright : Goes b .sum toks' (Matches right))
    (hheight : (Expr.compare span op left right).height ≤ maxNesting) :
    Goes b .comparison (toks ++ .symbol op.symbol :: toks')
      (Matches (.compare span op left right)) := by
  intro s rest hs hrest
  rw [List.append_assoc, List.cons_append] at hs
  obtain ⟨t, ts, rfl⟩ := List.exists_cons_of_ne_nil hrest.ne_nil
  show Reads (expression b) s _ _
  rw [expression_eq]
  refine (hleft.reads hs op.grip_lt).bind fun o s₁ hs₁ ho => ?_
  refine (Reads.peek hs₁).bind fun l s₂ hs₂ hl => ?_
  simp only [hl, comparison?_symbol]
  refine (Reads.take hs₂ (by simp)).bind fun _ s₃ hs₃ _ => ?_
  refine (hright.reads hs₃ (hrest.mono (by decide))).bind fun o' s₄ hs₄ ho' => ?_
  refine (Reads.peek hs₄).bind fun l' s₅ hs₅ hl' => ?_
  simp only [hl', comparison?_eq_none hrest]
  exact reads_join (joins_compare op left right) hs₅ ho ho' hheight

end Nodes

/-! ## Arguments -/

/-- Arguments were read, up to where they stand, and every node of them has a place. -/
structure Collects (es : List Expr) (ks : List Keyword) (a : Arguments) : Prop where
  args : eraseExprs a.args = eraseExprs es
  keywords : eraseKeywords a.keywords = eraseKeywords ks
  height : a.height = max (heightOf es) (heightBy ks)
  locatedArgs : firstUnlocatedExpr? a.args = none
  locatedKeywords : firstUnlocatedKeyword? a.keywords = none

theorem heightOf_append (es : List Expr) (e : Expr) :
    heightOf (es ++ [e]) = max (heightOf es) e.height := by
  induction es with
  | nil => simp [heightOf]
  | cons e' es ih => simp [heightOf, ih, Nat.max_assoc]

theorem heightBy_append (ks : List Keyword) (k : Keyword) :
    heightBy (ks ++ [k]) = max (heightBy ks) k.value.height := by
  induction ks with
  | nil => cases k; simp [heightBy, Keyword.value]
  | cons k' ks ih => cases k'; simp [heightBy, ih, Nat.max_assoc]

theorem firstUnlocatedExpr?_append (es : List Expr) (e : Expr) :
    firstUnlocatedExpr? (es ++ [e]) = (firstUnlocatedExpr? es).or e.firstUnlocated? := by
  induction es with
  | nil => simp [firstUnlocatedExpr?]
  | cons e' es ih => simp [firstUnlocatedExpr?, ih, Option.or_assoc]

theorem firstUnlocatedKeyword?_append (ks : List Keyword) (k : Keyword) :
    firstUnlocatedKeyword? (ks ++ [k]) = (firstUnlocatedKeyword? ks).or k.firstUnlocated? := by
  induction ks with
  | nil => simp [firstUnlocatedKeyword?]
  | cons k' ks ih => simp [firstUnlocatedKeyword?, ih, Option.or_assoc]

theorem Collects.names {es : List Expr} {ks : List Keyword} {a : Arguments}
    (h : Collects es ks a) : a.keywords.map Keyword.name = ks.map Keyword.name := by
  have hnames := congrArg (List.map Keyword.name) h.keywords
  simpa [eraseKeywords_eq_map, Function.comp_def] using hnames

section Arguments

variable {b : Nat} {before : Arguments} {es : List Expr} {ks : List Keyword} {s : Input}
  {toks rest : List Token}

/-- A positional argument is read behind arguments without names. -/
theorem reads_positional {e : Expr} {start : Span} (h : Goes b .loosest toks (Matches e))
    (hbefore : Collects es [] before) (hs : s.tokens = toks ++ rest) (hrest : Follows 1 rest) :
    Reads (positional (expression b) before start) s rest (Collects (es ++ [e]) []) := by
  have hkeywords : before.keywords = [] := by simpa using hbefore.names
  simp only [positional, hkeywords]
  refine (h.reads hs hrest).bind fun o s₁ hs₁ ho => .pure hs₁ ⟨?_, rfl, ?_, ?_, rfl⟩
  · have hargs := hbefore.args
    simp only [eraseExprs_eq_map] at hargs ⊢
    simp [hargs, ho.erase]
  · simp only [heightOf_append, hbefore.height, ho.height, heightBy]
    omega
  · simp [firstUnlocatedExpr?_append, hbefore.locatedArgs, ho.located]

/-- An argument that does not begin with a name and an assignment sign is positional. -/
theorem reads_unnamed {e : Expr} (h : Goes b .loosest toks (Matches e)) (hbegin : Begin toks)
    (hbefore : Collects es [] before) (hs : s.tokens = toks ++ rest) (hrest : Follows 1 rest)
    (hnext : rest.head? ≠ some (.symbol .assign)) :
    Reads (argument (expression b) before) s rest (Collects (es ++ [e]) []) := by
  obtain ⟨t, ts, htokens, -, hassign⟩ := hbegin.append hnext
  obtain ⟨u, us, rfl⟩ : ∃ u us, ts = u :: us := by
    refine List.exists_cons_of_length_pos ?_
    have hlength := congrArg List.length htokens
    have he := List.length_pos_iff.2 hbegin.ne_nil
    have hrest := List.length_pos_iff.2 hrest.ne_nil
    simp only [List.length_append, List.length_cons] at hlength
    omega
  have hpeeked : s.tokens = t :: u :: us := hs.trans htokens
  refine (Reads.peek hpeeked).bind fun l s₁ hs₁ hl => ?_
  refine (Reads.peekSecond hs₁).bind fun second s₂ hs₂ hsecond => ?_
  subst hsecond
  have hu : second ≠ .symbol .assign := by simpa using hassign
  simp only [hl]
  split
  · exact absurd rfl hu
  · exact reads_positional h hbefore (hs₂.trans htokens.symm) hrest

/-- An argument with a name is read. -/
theorem reads_keyword {span : Option Span} {name : String} {e : Expr}
    (h : Goes b .loosest toks (Matches e)) (hbefore : Collects es ks before)
    (hname : name ∉ ks.map Keyword.name)
    (hs : s.tokens = .name name :: .symbol .assign :: (toks ++ rest)) (hrest : Follows 1 rest) :
    Reads (argument (expression b) before) s rest (Collects es (ks ++ [.mk span name e])) := by
  refine (Reads.peek hs).bind fun l s₁ hs₁ hl => ?_
  refine (Reads.peekSecond hs₁).bind fun second s₂ hs₂ hsecond => ?_
  subst hsecond
  have hrepeated : before.keywords.any (·.name == name) = false := by
    rw [← hbefore.names] at hname
    simpa using hname
  simp only [hl, hrepeated]
  refine (Reads.take hs₂ (by simp)).bind fun _ s₃ hs₃ _ => ?_
  refine (Reads.take hs₃ (by simp)).bind fun _ s₄ hs₄ _ => ?_
  refine (h.reads hs₄ hrest).bind fun o s₅ hs₅ ho => ?_
  refine (Reads.lastSpan hs₅).bind fun _ s₆ hs₆ _ => .pure hs₆ ?_
  refine ⟨hbefore.args, ?_, ?_, hbefore.locatedArgs, ?_⟩
  · have hkeywords := hbefore.keywords
    simp only [eraseKeywords_eq_map] at hkeywords ⊢
    simp [hkeywords, Keyword.erase, ho.erase]
  · simp only [heightBy_append, hbefore.height, ho.height, Keyword.value]
    omega
  · simp [firstUnlocatedKeyword?_append, hbefore.locatedKeywords, Keyword.firstUnlocated?,
      ho.located]

/-- Reads what comes behind an argument. -/
def furtherArguments (value : Parser Operand) (bound : List Lexeme) (now : Arguments) :
    Parser Arguments := do
  if ← eat (.symbol .comma) then
    argumentsFrom value bound now
  else
    return now

/-- An argument is read, and then what comes behind it. -/
theorem reads_argumentsFrom_cons {value : Parser Operand} {bound : List Lexeme} {t : Token}
    {ts : List Token} {P Q : Arguments → Prop} (hs : s.tokens = t :: ts)
    (ht : t ≠ .symbol .rightParen) (hbound : s.tokens.length ≤ bound.length)
    (hargument : ∀ s : Input, s.tokens = t :: ts → Reads (argument value before) s toks Q)
    (hmore : ∀ (s : Input) (bound' : List Lexeme) (now : Arguments), s.tokens = toks → Q now →
      bound.length = bound'.length + 1 → Reads (furtherArguments value bound' now) s rest P) :
    Reads (argumentsFrom value bound before) s rest P := by
  obtain ⟨l, bound', rfl, -⟩ := Input.exists_bound hs hbound
  refine (Reads.peek hs).bind fun l' s₁ hs₁ hl => ?_
  simp only [hl, ht, if_false]
  exact (hargument s₁ hs₁).bind fun now s₂ hs₂ hnow => hmore s₂ bound' now hs₂ hnow rfl

/-- No argument is read where none comes next. -/
theorem reads_argumentsFrom_nil {value : Parser Operand} {bound : List Lexeme}
    (hs : s.tokens = .symbol .rightParen :: rest) :
    Reads (argumentsFrom value bound before) s (.symbol .rightParen :: rest) (· = before) := by
  cases bound with
  | nil => exact .pure hs rfl
  | cons l bound =>
    refine (Reads.peek hs).bind fun l' s₁ hs₁ hl => ?_
    simp only [hl, if_true]
    exact .pure hs₁ rfl

/-- Behind an argument comes a comma or the closing parenthesis. -/
theorem DerivesMoreArgs.head {used : List Lexeme} {args : List Expr} {keywords : List Keyword}
    (h : DerivesMoreArgs b used args keywords) (ts : List Token) :
    Follows 1 (tokensOf used ++ .symbol .rightParen :: ts) ∧
      (tokensOf used ++ .symbol .rightParen :: ts).head? ≠ some (.symbol .assign) := by
  cases h with
  | nil => exact ⟨Nat.zero_lt_one, by simp⟩
  | cons => exact ⟨Nat.zero_lt_one, by simp⟩

/-- Behind other arguments the tokens are read as the arguments `args` and `keywords`, in a loop that
may take as many rounds as there are tokens left, or `spare` less. -/
def ReadsFurther (loop : List Lexeme → Arguments → Parser Arguments) (spare : Nat)
    (toks : List Token) (args : List Expr) (keywords : List Keyword) : Prop :=
  ∀ ⦃es : List Expr⦄ ⦃ks : List Keyword⦄ ⦃before : Arguments⦄ ⦃s : Input⦄ ⦃bound : List Lexeme⦄
    ⦃rest : List Token⦄, (ks ≠ [] → args = []) →
    (∀ k ∈ keywords, k.name ∉ ks.map Keyword.name) → Collects es ks before →
    s.tokens = toks ++ .symbol .rightParen :: rest → s.tokens.length ≤ bound.length + spare →
    Reads (loop bound before) s (.symbol .rightParen :: rest)
      (Collects (es ++ args) (ks ++ keywords))

theorem readsFurther_nil {value : Parser Operand} :
    ReadsFurther (argumentsFrom value) 0 [] [] [] := by
  intro es ks before s bound rest _ _ hbefore hs _
  refine (reads_argumentsFrom_nil hs).imp ?_
  rintro _ rfl
  rwa [List.append_nil, List.append_nil]

theorem readsFurther_done {value : Parser Operand} :
    ReadsFurther (furtherArguments value) 1 [] [] [] := by
  intro es ks before s bound rest _ _ hbefore hs _
  refine (Reads.eat_of_ne hs (by simp)).bind fun found s₁ hs₁ hfound => ?_
  simp only [hfound]
  refine .pure hs₁ ?_
  rwa [List.append_nil, List.append_nil]

theorem readsFurther_comma {value : Parser Operand} {args : List Expr} {keywords : List Keyword}
    (h : ReadsFurther (argumentsFrom value) 0 toks args keywords) :
    ReadsFurther (furtherArguments value) 1 (.symbol .comma :: toks) args keywords := by
  intro es ks before s bound rest hlast hnew hbefore hs hbound
  refine (Reads.eat hs (by simp)).bind fun found s₁ hs₁ hfound => ?_
  simp only [hfound, if_true]
  refine h hlast hnew hbefore hs₁ ?_
  have hlength := congrArg List.length hs
  have hlength₁ := congrArg List.length hs₁
  simp only [List.cons_append, List.append_eq, List.length_cons] at hlength hlength₁
  omega

theorem readsFurther_positional {more : List Token} {e : Expr} {args : List Expr}
    {keywords : List Keyword} (h : Goes b .loosest toks (Matches e)) (hbegin : Begin toks)
    (hhead : ∀ ts, Follows 1 (more ++ .symbol .rightParen :: ts) ∧
      (more ++ .symbol .rightParen :: ts).head? ≠ some (.symbol .assign))
    (hmore : ReadsFurther (furtherArguments (expression b)) 1 more args keywords) :
    ReadsFurther (argumentsFrom (expression b)) 0 (toks ++ more) (e :: args) keywords := by
  intro es ks before s bound rest hlast hnew hbefore hs hbound
  obtain rfl : ks = [] := by
    cases ks with
    | nil => rfl
    | cons k ks => cases hlast (List.cons_ne_nil k ks)
  rw [List.append_assoc] at hs
  obtain ⟨t, ts, htoks, ht, -⟩ := id hbegin
  have hopen : t ≠ .symbol .rightParen := by
    rintro rfl
    cases ht
  have hargument : ∀ s₁ : Input, s₁.tokens = toks ++ (more ++ .symbol .rightParen :: rest) →
      Reads (argument (expression b) before) s₁ (more ++ .symbol .rightParen :: rest)
        (Collects (es ++ [e]) []) := fun s₁ hs₁ =>
    reads_unnamed h hbegin hbefore hs₁ (hhead rest).1 (hhead rest).2
  have hsplit : toks ++ (more ++ .symbol .rightParen :: rest) =
      t :: (ts ++ (more ++ .symbol .rightParen :: rest)) := by rw [htoks, List.cons_append]
  refine reads_argumentsFrom_cons (hs.trans hsplit) hopen hbound
    (fun s₁ hs₁ => hargument s₁ (hs₁.trans hsplit.symm)) fun s₁ bound' now hs₁ hnow hlength => ?_
  have hbound' : s₁.tokens.length ≤ bound'.length + 1 := by
    rw [hs, List.length_append, ← hs₁] at hbound
    omega
  refine (hmore (fun h => absurd rfl h) hnew hnow hs₁ hbound').imp fun all hall => ?_
  rwa [List.append_assoc] at hall

theorem readsFurther_keyword {more : List Token} {span : Option Span} {name : String} {e : Expr}
    {keywords : List Keyword} (h : Goes b .loosest toks (Matches e))
    (hhead : ∀ ts, Follows 1 (more ++ .symbol .rightParen :: ts))
    (hmore : ReadsFurther (furtherArguments (expression b)) 1 more [] keywords)
    (hname : name ∉ keywords.map Keyword.name) :
    ReadsFurther (argumentsFrom (expression b)) 0
      (.name name :: .symbol .assign :: (toks ++ more)) [] (.mk span name e :: keywords) := by
  intro es ks before s bound rest hlast hnew hbefore hs hbound
  obtain ⟨hfresh, hnew⟩ := List.forall_mem_cons.1 hnew
  have hs : s.tokens = .name name :: .symbol .assign ::
      (toks ++ (more ++ .symbol .rightParen :: rest)) := by simpa using hs
  refine reads_argumentsFrom_cons (Q := Collects es (ks ++ [.mk span name e])) hs (by simp) hbound
    (fun s₁ hs₁ => reads_keyword h hbefore hfresh hs₁ (hhead rest))
    fun s₁ bound' now hs₁ hnow hlength => ?_
  have hbound' : s₁.tokens.length ≤ bound'.length + 1 := by
    rw [hs, List.length_cons, List.length_cons, List.length_append, ← hs₁] at hbound
    omega
  have hdistinct : ∀ k ∈ keywords, k.name ∉ (ks ++ [Keyword.mk span name e]).map Keyword.name := by
    intro k hk hmem
    rw [List.map_append, List.mem_append] at hmem
    rcases hmem with hmem | hmem
    · exact hnew k hk hmem
    · rw [List.map_singleton, List.mem_singleton] at hmem
      exact hname (List.mem_map.2 ⟨k, hk, hmem⟩)
  refine (hmore (fun _ => rfl) hdistinct hnow hs₁ hbound').imp fun all hall => ?_
  rwa [List.append_assoc] at hall

/-- The arguments of a call are read. -/
theorem reads_arguments {args : List Expr} {keywords : List Keyword}
    (h : ReadsFurther (argumentsFrom (expression b)) 0 toks args keywords)
    (hs : s.tokens = toks ++ .symbol .rightParen :: rest) :
    Reads (arguments (expression b)) s rest (Collects args keywords) := by
  refine (Reads.remaining hs).bind fun bound s₁ hs₁ hbound => ?_
  have hnone : Collects [] [] {} := ⟨rfl, rfl, rfl, rfl, rfl⟩
  refine (h (fun h => absurd rfl h) (by simp) hnone hs₁
    (hs₁ ▸ Nat.le_of_eq hbound.symm)).bind fun all s₂ hs₂ hall => ?_
  exact (Reads.expect hs₂ (by simp)).bind fun _ _ hs₃ _ => .pure hs₃ hall

end Arguments

theorem goes_call {b : Nat} {span : Option Span} {callee : Expr} {args : List Expr}
    {keywords : List Keyword} {toks toks' : List Token}
    (hcallee : Goes (b + 1) .postfixed toks (Matches callee))
    (harguments : ∀ (s : Input) (rest : List Token),
      s.tokens = toks' ++ .symbol .rightParen :: rest →
        Reads (arguments (expression b)) s rest (Collects args keywords))
    (hheight : (Expr.call span callee args keywords).height ≤ maxNesting) :
    Goes (b + 1) .postfixed (toks ++ .symbol .leftParen :: (toks' ++ [.symbol .rightParen]))
      (Matches (.call span callee args keywords)) := by
  intro s rest hs hrest
  have hs : s.tokens = toks ++ .symbol .leftParen :: (toks' ++ .symbol .rightParen :: rest) := by
    simpa using hs
  refine (hcallee s _ hs (by simp)).round (fun start l bound o s₀ hs₀ ho => ?_)
    (by simp only [List.length_cons, List.length_append]; omega)
  obtain ⟨l₁, s₁, hs₁, hl, hpeek⟩ := (Reads.peek hs₀).bind_eq
  obtain ⟨_, s₂, hs₂, -, htake⟩ := (Reads.take hs₁ (by simp)).bind_eq
  obtain ⟨a, s₃, hs₃, ha, harguments⟩ := (harguments s₂ rest hs₂).bind_eq
  obtain ⟨last, s₄, hs₄, -, hlast⟩ := (Reads.lastSpan hs₃).bind_eq
  have ha' : max o.height a.height + 1 = (Expr.call span callee args keywords).height := by
    rw [Expr.height, ho.height, ha.height]
  obtain ⟨o', s₅, hs₅, rfl, hnode⟩ := (Reads.node
    (.call (start.through last) o.expr a.args a.keywords) hs₄ (ha' ▸ hheight)).bind_eq
  refine ⟨⟨.call (start.through last) o.expr a.args a.keywords, max o.height a.height + 1⟩, s₅, ?_,
    hs₅, ?_, ha', ?_⟩
  · rw [postfixFrom]
    simp only [monadLift_self, hpeek, hl]
    show (take >>= fun _ => arguments (expression b) >>= _) s₁ = _
    rw [htake, harguments, hlast, hnode]
  · simp only [Expr.erase, ho.erase, ha.args, ha.keywords]
  · simp [Expr.firstUnlocated?, ho.located, ha.locatedArgs, ha.locatedKeywords]

/-! ## Expressions -/

theorem head_ne_minus_append {ts us : List Token} (hts : Begin ts)
    (h : ts.head? ≠ some (.symbol .minus)) : (ts ++ us).head? ≠ some (.symbol .minus) := by
  obtain ⟨t, rest, rfl, -⟩ := hts
  exact h

theorem singleton_ne_minus {t : Token} {ts : List Token} (h : t ≠ .symbol .minus) :
    (t :: ts).head? ≠ some (.symbol .minus) := by
  simpa using h

theorem Strength.sign_lt_tighter {k : Strength} (h : Strength.sign.rank < k.rank) :
    Strength.sign.rank < k.tighter.rank := by
  cases k <;> first | exact h | exact absurd h (by decide) | decide

/-- What binds more tightly than a sign does not begin with one. -/
theorem DerivesExpr.head_ne_minus {b : Nat} {k : Strength} {used : List Lexeme} {e : Expr} :
    DerivesExpr b k used e → Strength.sign.rank < k.rank →
      (tokensOf used).head? ≠ some (.symbol .minus)
  | .number, _ => singleton_ne_minus Token.noConfusion
  | .text, _ => singleton_ne_minus Token.noConfusion
  | .name, _ => singleton_ne_minus Token.noConfusion
  | .parens _, _ => singleton_ne_minus (t := .symbol .leftParen) (by decide)
  | .member h hused, _ => by
    rw [hused, tokensOf_append]
    exact head_ne_minus_append h.begin (h.head_ne_minus (by decide))
  | .call h _ hused, _ => by
    rw [hused, tokensOf_append]
    exact head_ne_minus_append h.begin (h.head_ne_minus (by decide))
  | .negate .., hrank => absurd hrank (by decide)
  | @DerivesExpr.binary _ op .., hrank => by
    cases op <;> exact absurd hrank (by decide)
  | .compare .., hrank => absurd hrank (by decide)
  | .loosen h, hrank => h.head_ne_minus (Strength.sign_lt_tighter hrank)

mutual

/-- What derives from the grammar as an expression is read. -/
theorem DerivesExpr.goes {b : Nat} {k : Strength} {used : List Lexeme} {e : Expr} :
    DerivesExpr b k used e → e.height ≤ maxNesting → Goes b k (tokensOf used) (Matches e)
  | .number, _ => goes_number _
  | .text, _ => goes_text _
  | .name, _ => goes_name _
  | .parens h, hheight => by simpa using (h.goes hheight).parens
  | .member h hused, hheight => by
    subst hused
    simpa using goes_member (h.goes (Nat.le_of_succ_le hheight)) hheight
  | .call hcallee hargs hused, hheight => by
    subst hused
    have hle := hheight
    simp only [Expr.height] at hle
    have hall := hargs.goes (by omega) (by omega)
    simpa using goes_call (hcallee.goes (by omega)) (fun _ _ => reads_arguments hall) hheight
  | .negate h hused, hheight => by
    subst hused
    exact goes_negate (h.goes (Nat.le_of_succ_le hheight)) hheight
  | .binary hleft hright, hheight => by
    have hle := hheight
    simp only [Expr.height] at hle
    simpa using goes_binary (hleft.goes (by omega)) (hright.goes (by omega)) hheight
  | .compare hleft hright, hheight => by
    have hle := hheight
    simp only [Expr.height] at hle
    simpa using goes_compare (hleft.goes (by omega)) (hright.goes (by omega)) hheight
  | .loosen h, hheight => by
    refine (h.goes hheight).loosen h.begin.ne_nil ?_
    rintro rfl
    exact h.head_ne_minus (by decide)

theorem DerivesArgs.goes {b : Nat} {used : List Lexeme} {args : List Expr}
    {keywords : List Keyword} : DerivesArgs b used args keywords → heightOf args ≤ maxNesting →
      heightBy keywords ≤ maxNesting →
      ReadsFurther (argumentsFrom (expression b)) 0 (tokensOf used) args keywords
  | .nil, _, _ => readsFurther_nil
  | .positional h hrest, hargs, hkeywords => by
    simp only [heightOf] at hargs
    rw [tokensOf, List.map_append]
    exact readsFurther_positional (h.goes (by omega)) h.begin hrest.head
      (hrest.goes (by omega) hkeywords)
  | .keyword h hused hrest hnew, hargs, hkeywords => by
    simp only [heightBy] at hkeywords
    subst hused
    have hmore := hrest.goes hargs (by omega)
    simpa using readsFurther_keyword (h.goes (by omega)) (fun ts => (hrest.head ts).1) hmore hnew

theorem DerivesMoreArgs.goes {b : Nat} {used : List Lexeme} {args : List Expr}
    {keywords : List Keyword} : DerivesMoreArgs b used args keywords → heightOf args ≤ maxNesting →
      heightBy keywords ≤ maxNesting →
      ReadsFurther (furtherArguments (expression b)) 1 (tokensOf used) args keywords
  | .nil, _, _ => readsFurther_done
  | .cons h, hargs, hkeywords => readsFurther_comma (h.goes hargs hkeywords)

end

end Stampline
