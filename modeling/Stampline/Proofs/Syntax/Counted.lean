import Stampline.Proofs.Syntax.Descent
import Stampline.Proofs.Syntax.Nodes

/-!
# The descent is read with its counter in order

Every reader with a counter mirrors the one without, at every depth, where the depth and the budget of
levels make up the limit. The operands made tell the height of every expression of what is read.
-/

namespace Stampline

open Stampline.Parser

/-- Each expression among some nodes was made as an operand, with the height of its tree. -/
def Tracks (made : List Operand) (nodes : List Node) : Prop :=
  ∀ e, .expr e ∈ nodes → ⟨e, e.height⟩ ∈ made

/-- An operand comes with the height of its tree, and the expressions in it were made. -/
structure Tracked (made : List Operand) (o : Operand) : Prop where
  height_eq : o.height = o.expr.height
  nodes : Tracks made o.expr.nodes

/-- Arguments come with their greatest height, and the expressions in them were made. -/
structure TrackedArgs (made : List Operand) (a : Arguments) : Prop where
  height_eq : a.height = max (heightOf a.args) (heightBy a.keywords)
  args : Tracks made (nodesOf a.args)
  keywords : Tracks made (nodesBy a.keywords)

/-- The expressions in a statement were made. -/
def TrackedStmt (made : List Operand) (s : Stmt) : Prop := Tracks made s.nodes

/-- The expressions in a block were made. -/
def TrackedBlock (made : List Operand) (block : List Stmt) : Prop := Tracks made (nodesIn block)

section Tracking

variable {made made' : List Operand} {nodes more : List Node} {o : Operand}

theorem Tracks.nil : Tracks made [] := fun _ he => nomatch he

theorem Tracks.mono (h : Tracks made nodes) (hmade : made ⊆ made') : Tracks made' nodes :=
  fun e he => hmade (h e he)

theorem Tracks.append (h : Tracks made nodes) (h' : Tracks made more) : Tracks made (nodes ++ more) :=
  fun e he => (List.mem_append.1 he).elim (h e) (h' e)

/-- Statements, parameters and keyword arguments are not made as operands. -/
theorem Tracks.cons {n : Node} (hn : ∀ e, n ≠ .expr e) (h : Tracks made nodes) :
    Tracks made (n :: nodes) := fun e he => by
  rcases List.mem_cons.1 he with rfl | he
  · exact absurd rfl (hn e)
  · exact h e he

/-- An operand is tracked once it is made of what is. -/
theorem Tracked.of_made {e : Expr} (h : Tracks made nodes) (hnodes : e.nodes = .expr e :: nodes) :
    Tracked (⟨e, e.height⟩ :: made) ⟨e, e.height⟩ := by
  refine ⟨rfl, fun e' he' => ?_⟩
  rw [hnodes] at he'
  rcases List.mem_cons.1 he' with heq | he'
  · obtain rfl := Node.expr.inj heq
    exact .head _
  · exact .tail _ (h e' he')

theorem Tracked.mono (h : Tracked made o) (hmade : made ⊆ made') : Tracked made' o :=
  ⟨h.height_eq, h.nodes.mono hmade⟩

theorem TrackedBlock.singleton {s : Stmt} (h : TrackedStmt made s) : TrackedBlock made [s] :=
  Tracks.append h .nil

theorem Tracks.params (params : List Param) : Tracks made (params.map .param) := by
  intro e he
  obtain ⟨p, -, hp⟩ := List.mem_map.1 he
  cases hp

theorem TrackedBlock.reverse_cons {s : Stmt} {before : List Stmt}
    (hbefore : TrackedBlock made before.reverse) (hsub : made ⊆ made') (hs : TrackedStmt made' s) :
    TrackedBlock made' (s :: before).reverse := by
  have hnodes : nodesIn (s :: before).reverse = nodesIn before.reverse ++ s.nodes := by
    simp [nodesIn_eq_flatMap, Node.nodes]
  unfold TrackedBlock
  rw [hnodes]
  exact (Tracks.mono hbefore hsub).append hs

end Tracking

theorem nodesOf_append (es : List Expr) (e : Expr) : nodesOf (es ++ [e]) = nodesOf es ++ e.nodes := by
  induction es with
  | nil => simp [nodesOf]
  | cons e' es ih => rw [List.cons_append, nodesOf, ih, nodesOf, List.append_assoc]

theorem nodesBy_append (ks : List Keyword) (span : Option Span) (name : String) (value : Expr) :
    nodesBy (ks ++ [.mk span name value]) =
      nodesBy ks ++ .keyword (.mk span name value) :: value.nodes := by
  induction ks with
  | nil => simp [nodesBy]
  | cons k ks ih =>
    cases k
    simp only [List.cons_append, nodesBy, ih, List.append_assoc]

namespace Descent

variable {depth : Nat} {made : List Operand}

section Expressions

variable {x : Descent Operand} {p : Parser Operand} {inner? deeper? : Option (Descent Operand)}
  {inner?' deeper?' : Option (Parser Operand)}

/-! ## Operators -/

/-- A node is tracked if it is made of what is. -/
theorem mirrors_node {e : Expr} {height : Nat} {nodes : List Node} (hheight : height = e.height)
    (h : Tracks made nodes) (hnodes : e.nodes = .expr e :: nodes) :
    Mirrors depth made (node e height) (node e height) Tracked := by
  subst hheight
  exact .node rfl (.of_made h hnodes)

theorem mirrors_join {build : Option Span → Expr → Expr → Expr} {left right : Operand}
    (hheight : ∀ span l r, (build span l r).height = max l.height r.height + 1)
    (hnodes : ∀ span l r, (build span l r).nodes = .expr (build span l r) :: (l.nodes ++ r.nodes))
    (hleft : Tracked made left) (hright : Tracked made right) :
    Mirrors depth made (join build left right) (join build left right) Tracked := by
  refine mirrors_node ?_ (hleft.nodes.append hright.nodes) (hnodes _ _ _)
  rw [hheight, hleft.height_eq, hright.height_eq]

theorem mirrors_chainFrom {op? : Token → Option BinaryOp}
    (h : ∀ made, Mirrors depth made x p Tracked) :
    ∀ (bound : List Lexeme) {made : List Operand} {left : Operand}, Tracked made left →
      Mirrors depth made (chainFrom op? x bound left) (chainFrom op? p bound left) Tracked
  | [], _, _, hleft => .pure hleft
  | _ :: bound, made, left, hleft => by
    refine .lift_bind fun l => ?_
    cases op? l.token with
    | none => exact .pure hleft
    | some op =>
      refine .lift_bind fun _ => (h made).bind fun made' right hsub hright => ?_
      exact (mirrors_join (fun _ _ _ => rfl) (fun _ _ _ => rfl) (hleft.mono hsub) hright).bind
        fun made' o _ ho => mirrors_chainFrom h bound ho

theorem mirrors_chain {op? : Token → Option BinaryOp} (h : ∀ made, Mirrors depth made x p Tracked) :
    Mirrors depth made (chain op? x) (chain op? p) Tracked :=
  (h made).bind fun _ _ _ hleft => .lift_bind fun bound => mirrors_chainFrom h bound hleft

theorem mirrors_sum (h : ∀ made, Mirrors depth made x p Tracked) :
    Mirrors depth made (sum x) (sum p) Tracked :=
  mirrors_chain fun _ => mirrors_chain h

theorem mirrors_compared (h : ∀ made, Mirrors depth made x p Tracked) :
    Mirrors depth made (compared x) (compared p) Tracked := by
  refine (mirrors_sum h).bind fun made' left _ hleft => .lift_bind fun l => ?_
  cases comparison? l.token with
  | none => exact .pure hleft
  | some op =>
    refine .lift_bind fun _ => (mirrors_sum h).bind fun made'' right hsub hright =>
      .lift_bind fun l' => ?_
    have hjoin : Mirrors depth made'' (join (fun s => .compare s op) left right)
        (join (fun s => .compare s op) left right) Tracked :=
      mirrors_join (fun _ _ _ => rfl) (fun _ _ _ => rfl) (hleft.mono hsub) hright
    refine .ite (fun _ => ?_) fun _ => hjoin
    exact .lift_bind fun _ => hjoin

/-! ## Arguments -/

theorem mirrors_positional {before : Arguments} {start : Span}
    (h : ∀ made, Mirrors depth made x p Tracked) (hbefore : TrackedArgs made before) :
    Mirrors depth made (positional x before start) (positional p before start) TrackedArgs := by
  refine .ite (fun _ => .failAt_bind) fun _ => (h made).bind fun made' v hsub hv => .pure ⟨?_, ?_, ?_⟩
  · show max before.height v.height =
      max (heightOf (before.args ++ [v.expr])) (heightBy before.keywords)
    rw [heightOf_append, hbefore.height_eq, hv.height_eq]
    omega
  · show Tracks made' (nodesOf (before.args ++ [v.expr]))
    rw [nodesOf_append]
    exact (hbefore.args.mono hsub).append hv.nodes
  · exact hbefore.keywords.mono hsub

theorem mirrors_argument {before : Arguments} (h : ∀ made, Mirrors depth made x p Tracked)
    (hbefore : TrackedArgs made before) :
    Mirrors depth made (argument x before) (argument p before) TrackedArgs := by
  refine .lift_bind fun start => .lift_bind fun second => ?_
  -- What is no keyword argument is positional, in each of many cases of the first two tokens.
  have hpositional := @mirrors_positional depth made x p before start.span h hbefore
  generalize start.token = first
  cases first with
  | name id =>
    cases second with
    | symbol s =>
      cases s with
      | assign =>
        refine .lift_bind fun _ => .lift_bind fun _ => .ite (fun _ => .failAt_bind) fun _ => ?_
        refine (h made).bind fun made' v hsub hv => .lift_bind fun last => .pure ⟨?_, ?_, ?_⟩
        · show max before.height v.height =
            max (heightOf before.args) (heightBy (before.keywords ++ [.mk _ id v.expr]))
          rw [heightBy_append, hbefore.height_eq, hv.height_eq]
          exact Nat.max_assoc ..
        · exact hbefore.args.mono hsub
        · show Tracks made' (nodesBy (before.keywords ++ [.mk _ id v.expr]))
          rw [nodesBy_append]
          exact (hbefore.keywords.mono hsub).append (.cons (by simp) hv.nodes)
      | _ => exact hpositional
    | _ => exact hpositional
  | _ => exact hpositional

theorem mirrors_argumentsFrom (h : ∀ made, Mirrors depth made x p Tracked) :
    ∀ (bound : List Lexeme) {made : List Operand} {before : Arguments}, TrackedArgs made before →
      Mirrors depth made (argumentsFrom x bound before) (argumentsFrom p bound before) TrackedArgs
  | [], _, _, hbefore => .pure hbefore
  | _ :: bound, made, before, hbefore => by
    refine .lift_bind fun l => .ite (fun _ => .pure hbefore) fun _ => ?_
    refine (mirrors_argument h hbefore).bind fun made' now _ hnow => .lift_bind fun more => ?_
    exact .ite (fun _ => mirrors_argumentsFrom h bound hnow) fun _ => .pure hnow

theorem mirrors_arguments (h : ∀ made, Mirrors depth made x p Tracked) :
    Mirrors depth made (arguments x) (arguments p) TrackedArgs := by
  have hnone : TrackedArgs made {} := ⟨rfl, .nil, .nil⟩
  exact .lift_bind fun bound => (mirrors_argumentsFrom h bound hnone).bind
    fun _ all _ hall => .lift_bind fun _ => .pure hall

/-! ## Atoms, calls, attributes and signs -/

theorem mirrors_leaf {e : Expr} (hheight : e.height = 1) (hnodes : e.nodes = [.expr e]) :
    Mirrors depth made (make ⟨e, 1⟩) (pure ⟨e, 1⟩) Tracked := by
  rw [← hheight]
  have hlow : e.height ≤ maxNesting := hheight ▸ (by decide : 1 ≤ maxNesting)
  exact .make ⟨rfl, hlow⟩ (.of_made .nil hnodes)

theorem mirrors_atom (h : MirrorsDeeper depth Tracked inner? inner?') :
    Mirrors depth made (atom inner?) (atom inner?') Tracked := by
  refine .lift_bind fun start => ?_
  obtain ⟨token, span⟩ := start
  cases token with
  | integer value => exact mirrors_leaf rfl rfl
  | text value => exact mirrors_leaf rfl rfl
  | name id => exact mirrors_leaf rfl rfl
  | symbol s =>
    cases s with
    | leftParen => exact h.nested.bind fun _ o _ ho => .lift_bind fun _ => .pure ho
    | _ => exact .failAt
  | _ => exact .failAt

theorem MirrorsDeeper.arguments (h : MirrorsDeeper depth Tracked inner? inner?') :
    MirrorsDeeper depth TrackedArgs (inner?.map arguments) (inner?'.map arguments) := by
  cases h with
  | refused hdepth => exact .refused hdepth
  | entered hdepth hx => exact .entered hdepth fun made => mirrors_arguments hx

theorem mirrors_postfixFrom {start : Span} (h : MirrorsDeeper depth Tracked inner? inner?') :
    ∀ (bound : List Lexeme) {made : List Operand} {operand : Operand}, Tracked made operand →
      Mirrors depth made (postfixFrom inner? start bound operand)
        (postfixFrom inner?' start bound operand) Tracked
  | [], _, _, hoperand => .pure hoperand
  | _ :: bound, made, operand, hoperand => by
    refine .lift_bind fun l => ?_
    generalize l.token = token
    cases token with
    | symbol s =>
      cases s with
      | leftParen =>
        refine .lift_bind fun _ =>
          h.arguments.nested.bind fun made' a hsub ha => .lift_bind fun last => ?_
        refine (mirrors_node ?_ ((hoperand.nodes.mono hsub).append (ha.args.append ha.keywords))
          rfl).bind fun _ o _ ho => mirrors_postfixFrom h bound ho
        rw [hoperand.height_eq, ha.height_eq]
        rfl
      | dot =>
        refine .lift_bind fun _ => .lift_bind fun id => .lift_bind fun last => ?_
        refine (mirrors_node ?_ hoperand.nodes rfl).bind fun _ o _ ho => mirrors_postfixFrom h bound ho
        rw [hoperand.height_eq]
        rfl
      | _ => exact .pure hoperand
    | _ => exact .pure hoperand

theorem mirrors_postfixed (h : MirrorsDeeper depth Tracked inner? inner?') :
    Mirrors depth made (postfixed inner?) (postfixed inner?') Tracked :=
  .lift_bind fun _ => (mirrors_atom h).bind fun _ _ _ ho => .lift_bind fun bound =>
    mirrors_postfixFrom h bound ho

theorem mirrors_signed (hdeeper : MirrorsDeeper depth Tracked deeper? deeper?')
    (hinner : MirrorsDeeper depth Tracked inner? inner?') :
    Mirrors depth made (signed deeper? inner?) (signed deeper?' inner?') Tracked := by
  refine .lift_bind fun start => .ite (fun _ => ?_) fun _ => mirrors_postfixed hinner
  refine .lift_bind fun _ => hdeeper.nested.bind fun made' o _ ho => .lift_bind fun last => ?_
  refine mirrors_node ?_ ho.nodes rfl
  rw [ho.height_eq]
  rfl

end Expressions

section Nesting

variable {fuel budget : Nat}

/-- With more fuel than levels are left, a negation recurses on the fuel as it does on the levels. -/
theorem mirrors_negation : ∀ (fuel budget depth : Nat), budget < fuel → depth + budget = maxNesting →
    ∀ made, Mirrors depth made (negation fuel) (negation budget) Tracked
  | fuel + 1, 0, depth, _, hdepth, made => by
    -- No level is left: calls deeper are refused because of the depth, whatever fuel there is.
    rw [negation_eq, negation_eq]
    exact mirrors_signed (.refused hdepth) (.refused hdepth)
  | fuel + 1, budget + 1, depth, hfuel, hdepth, made => by
    have hlevel : depth < maxNesting := by omega
    have hnegation := mirrors_negation fuel budget (depth + 1) (by omega) (by omega)
    have hexpression : ∀ made, Mirrors (depth + 1) made (expression fuel) (expression budget) Tracked := by
      intro made
      rw [expression_eq, expression_eq]
      exact mirrors_compared hnegation
    rw [negation_eq, negation_eq]
    exact mirrors_signed (.entered hlevel hnegation) (.entered hlevel hexpression)

theorem mirrors_expression (hfuel : budget < fuel) (hdepth : depth + budget = maxNesting) :
    Mirrors depth made (expression fuel) (expression budget) Tracked := by
  rw [expression_eq, expression_eq]
  exact mirrors_compared (mirrors_negation fuel budget depth hfuel hdepth)

end Nesting

/-! ## Statements -/

section Statements

variable {x : Descent Operand} {p : Parser Operand} {z : Descent Stmt} {q : Parser Stmt}
  {block? : Option (Descent (List Stmt))} {block?' : Option (Parser (List Stmt))}
  {link? : Option (Descent Stmt)} {link?' : Option (Parser Stmt)}

theorem mirrors_assigned {start : Span} (h : ∀ made, Mirrors depth made x p Tracked) :
    Mirrors depth made (assigned x start) (assigned p start) TrackedStmt := by
  refine (h made).bind fun made' left _ hleft => .lift_bind fun found => .ite (fun _ => ?_) fun _ => ?_
  · cases left.expr with
    | name span target =>
      exact (h made').bind fun _ v _ hv => .lift_bind fun _ => .pure (.cons (by simp) hv.nodes)
    | _ => exact .failAt
  · exact .pure (.cons (by simp) hleft.nodes)

theorem mirrors_simple (h : ∀ made, Mirrors depth made x p Tracked) :
    Mirrors depth made (simple x) (simple p) TrackedStmt := by
  refine .lift_bind fun start => ?_
  have hassigned : Mirrors depth made (assigned x start.span) (assigned p start.span)
      TrackedStmt := mirrors_assigned h
  generalize start.token = token
  cases token with
  | reserved word =>
    cases word with
    | pass => exact .lift_bind fun _ => .pure (.cons (by simp) .nil)
    | give =>
      refine .lift_bind fun _ => .lift_bind fun next => .ite (fun _ => ?_) fun _ => ?_
      · exact .lift_bind fun _ => .pure (.cons (by simp) .nil)
      · exact (h made).bind fun _ v _ hv => .lift_bind fun _ => .pure (.cons (by simp) hv.nodes)
    | _ => exact hassigned
  | _ => exact hassigned

theorem mirrors_line (h : ∀ made, Mirrors depth made x p Tracked) :
    Mirrors depth made (line x) (line p) TrackedStmt :=
  (mirrors_simple h).bind fun _ _ _ hs => .lift_bind fun _ => .pure hs

theorem mirrors_definition (hbody : MirrorsDeeper depth TrackedBlock block? block?') :
    Mirrors depth made (definition block?) (definition block?') TrackedStmt := by
  refine .lift_bind fun start => .lift_bind fun name => .lift_bind fun _ => .lift_bind fun bound =>
    .lift_bind fun params => .lift_bind fun _ => .lift_bind fun _ => ?_
  exact hbody.nested.bind fun _ body _ hbody => .lift_bind fun _ =>
    .pure (.cons (by simp) ((Tracks.params params).append hbody))

theorem mirrors_alternative (hbody : MirrorsDeeper depth TrackedBlock block? block?')
    (hlink : MirrorsDeeper depth TrackedStmt link? link?') :
    Mirrors depth made (alternative block? link?) (alternative block?' link?') TrackedBlock := by
  refine .lift_bind fun l => ?_
  generalize l.token = token
  cases token with
  | reserved word =>
    cases word with
    | elseWhether => exact .map (hlink.nested.imp fun _ _ hs => .singleton hs)
    | otherwise => exact .lift_bind fun _ => .lift_bind fun _ => hbody.nested
    | _ => exact .pure .nil
  | _ => exact .pure .nil

theorem mirrors_conditionalOf (h : ∀ made, Mirrors depth made x p Tracked)
    (hbody : MirrorsDeeper depth TrackedBlock block? block?')
    (hlink : MirrorsDeeper depth TrackedStmt link? link?') :
    Mirrors depth made (conditionalOf x block? link?) (conditionalOf p block?' link?') TrackedStmt := by
  refine .lift_bind fun start => (h made).bind fun _ test _ htest => .lift_bind fun _ =>
    hbody.nested.bind fun _ body hsub hbody =>
    (mirrors_alternative ‹_› hlink).bind fun _ orelse hsub' horelse => .lift_bind fun _ => .pure ?_
  exact .cons (by simp) ((htest.nodes.mono (List.Subset.trans hsub hsub')).append
    ((hbody.mono hsub').append horelse))

theorem mirrors_repetition (h : ∀ made, Mirrors depth made x p Tracked)
    (hbody : MirrorsDeeper depth TrackedBlock block? block?') :
    Mirrors depth made (repetition x block?) (repetition p block?') TrackedStmt := by
  refine .lift_bind fun start => (h made).bind fun _ test _ htest => .lift_bind fun _ =>
    hbody.nested.bind fun _ body hsub hbody => .lift_bind fun _ => .pure ?_
  exact .cons (by simp) ((htest.nodes.mono hsub).append hbody)

theorem mirrors_statementOf (h : ∀ made, Mirrors depth made x p Tracked)
    (hbody : MirrorsDeeper depth TrackedBlock block? block?')
    (hlink : MirrorsDeeper depth TrackedStmt link? link?') :
    Mirrors depth made (statementOf x block? link?) (statementOf p block?' link?') TrackedStmt := by
  refine .lift_bind fun l => ?_
  generalize l.token = token
  cases token with
  | reserved word =>
    cases word with
    | define => exact mirrors_definition hbody
    | whether => exact mirrors_conditionalOf h hbody hlink
    | repeating => exact mirrors_repetition h hbody
    | _ => exact mirrors_line h
  | _ => exact mirrors_line h

/-! ## Blocks -/

theorem mirrors_statementsFrom (h : ∀ made, Mirrors depth made z q TrackedStmt) :
    ∀ (bound : List Lexeme) {made : List Operand} {before : List Stmt},
      TrackedBlock made before.reverse →
      Mirrors depth made (statementsFrom z bound before) (statementsFrom q bound before)
        TrackedBlock
  | [], _, _, hbefore => .pure hbefore
  | _ :: bound, made, before, hbefore => by
    refine .lift_bind fun found => .ite (fun _ => .pure hbefore) fun _ => ?_
    exact (h made).bind fun _ s hsub hs =>
      mirrors_statementsFrom h bound (hbefore.reverse_cons hsub hs)

theorem mirrors_programFrom (h : ∀ made, Mirrors depth made z q TrackedStmt) :
    ∀ (bound : List Lexeme) {made : List Operand} {before : List Stmt},
      TrackedBlock made before.reverse →
      Mirrors depth made (programFrom z bound before) (programFrom q bound before) TrackedBlock
  | [], _, _, hbefore => .pure hbefore
  | _ :: bound, made, before, hbefore => by
    refine .lift_bind fun l => .ite (fun _ => .pure hbefore) fun _ => .lift_bind fun found => ?_
    refine .ite (fun _ => mirrors_programFrom h bound hbefore) fun _ => ?_
    exact (h made).bind fun _ s hsub hs => mirrors_programFrom h bound (hbefore.reverse_cons hsub hs)

theorem mirrors_blockOf (h : ∀ made, Mirrors depth made x p Tracked)
    (hstatement : ∀ made, Mirrors depth made z q TrackedStmt) :
    Mirrors depth made (blockOf x z) (blockOf p q) TrackedBlock := by
  refine .lift_bind fun found => .ite (fun _ => ?_) fun _ => ?_
  · exact .lift_bind fun _ => .lift_bind fun bound => mirrors_statementsFrom hstatement bound .nil
  · exact (mirrors_line h).bind fun _ _ _ hs => .pure (.singleton hs)

end Statements

section Blocks

variable {fuel budget : Nat}

/-- What is read as a block or as a link mirrors what is read so where a level is left. -/
def MirrorsBodies (depth fuel budget : Nat) : Prop :=
  MirrorsDeeper depth TrackedBlock (bodies fuel) (bodies budget) ∧
    MirrorsDeeper depth TrackedStmt (links fuel) (links budget)

theorem MirrorsBodies.statement (h : MirrorsBodies depth fuel budget) (hfuel : budget < fuel)
    (hdepth : depth + budget = maxNesting) :
    Mirrors depth made (statement fuel) (statement budget) TrackedStmt := by
  rw [statement_eq, statement_eq]
  exact mirrors_statementOf (fun _ => mirrors_expression hfuel hdepth) h.1 h.2

/-- With more fuel than levels are left, blocks and conditionals recurse on the fuel as they do on the
levels. -/
theorem mirrors_bodies : ∀ (fuel budget depth : Nat), budget < fuel → depth + budget = maxNesting →
    MirrorsBodies depth fuel budget
  | fuel + 1, 0, depth, _, hdepth => ⟨.refused hdepth, .refused hdepth⟩
  | fuel + 1, budget + 1, depth, hfuel, hdepth => by
    have hfuel' : budget < fuel := by omega
    have hdepth' : depth + 1 + budget = maxNesting := by omega
    have hlevel : depth < maxNesting := by omega
    have hexpression : ∀ made, Mirrors (depth + 1) made (expression fuel) (expression budget) Tracked :=
      fun _ => mirrors_expression hfuel' hdepth'
    have hbodies := mirrors_bodies fuel budget (depth + 1) hfuel' hdepth'
    refine ⟨.entered hlevel fun made => ?_, .entered hlevel fun made => ?_⟩
    · rw [block_eq, block_eq]
      exact mirrors_blockOf hexpression fun _ => hbodies.statement hfuel' hdepth'
    · rw [conditional_eq, conditional_eq]
      exact mirrors_conditionalOf hexpression hbodies.1 hbodies.2

theorem mirrors_statement (hfuel : maxNesting < fuel) :
    Mirrors 0 made (statement fuel) (statement maxNesting) TrackedStmt :=
  (mirrors_bodies fuel maxNesting 0 hfuel (Nat.zero_add _)).statement hfuel (Nat.zero_add _)

end Blocks

end Descent

/-- With enough fuel the descent with a counter reads what the descent without one reads. The counter
ends where it began, all is well with what was noted, and what is read was made on the way. -/
theorem descend_eq {fuel : Nat} (hfuel : maxNesting < fuel) (lexemes : List Lexeme) :
    (descend fuel lexemes).1 = parseLexemes lexemes ∧
      (descend fuel lexemes).2.InOrder 0 (descend fuel lexemes).2.made ∧
      ∀ p, parseLexemes lexemes = .ok p → TrackedBlock (descend fuel lexemes).2.made p := by
  have hread : Descent.Mirrors 0 [] (programFrom (statement fuel) lexemes []) (program lexemes)
      TrackedBlock :=
    Descent.mirrors_programFrom (fun _ => Descent.mirrors_statement hfuel) lexemes .nil
  obtain ⟨g, made, hrun, hg, -, htracked⟩ := hread ⟨lexemes, .root⟩ {}
    ⟨rfl, rfl, List.forall_mem_nil _, List.forall_mem_nil _, rfl⟩
  obtain rfl := hg.made_eq
  unfold descend
  rw [hrun]
  refine ⟨rfl, hg, fun p hp => ?_⟩
  cases hr : (program lexemes).run ⟨lexemes, .root⟩ with
  | error e =>
    rw [parseLexemes, hr] at hp
    cases hp
  | ok r =>
    rw [parseLexemes, hr] at hp
    obtain rfl := Except.ok.inj hp
    exact htracked r.1 r.2 hr

end Stampline
