import Stampline.Proofs.Syntax.Nested

/-!
# Where nodes stand

A node of a program that was read stands from the first of its lexemes to the last one that is not
layout. Operators and expression statements are different: an operator stands where its operands stand
and an expression statement where its expression stands. Parentheses around an operand at either end are
left out, although they are among the lexemes of the operator.
-/

namespace Stampline

/-! ## The lexemes of a node -/

/-- The lexemes that a node is made of, by the rule of the grammar for its form. Those around nodes below
it are among them, parentheses around the node itself are not. Where the node stands is left open. -/
inductive Node.ReadFrom : Node → List Lexeme → Prop where
  | number {span here value} : ReadFrom (.expr (.number span value)) [⟨.integer value, here⟩]
  | text {span here value} : ReadFrom (.expr (.text span value)) [⟨.text value, here⟩]
  | name {span here id} : ReadFrom (.expr (.name span id)) [⟨.name id, here⟩]
  | member {b ls e span dot id here} (h : DerivesExpr b .postfixed ls e) :
      ReadFrom (.expr (.member span e id)) (ls ++ [⟨.symbol .dot, dot⟩, ⟨.name id, here⟩])
  | call {b ls e inside span args keywords opening closing}
      (hcallee : DerivesExpr (b + 1) .postfixed ls e) (hargs : DerivesArgs b inside args keywords) :
      ReadFrom (.expr (.call span e args keywords))
        (ls ++ ⟨.symbol .leftParen, opening⟩ :: (inside ++ [⟨.symbol .rightParen, closing⟩]))
  | negate {b ls e span here} (h : DerivesExpr b .sign ls e) :
      ReadFrom (.expr (.negate span e)) (⟨.symbol .minus, here⟩ :: ls)
  | binary {b op ls left rs right span here} (hleft : DerivesExpr b op.strength ls left)
      (hright : DerivesExpr b op.strength.tighter rs right) :
      ReadFrom (.expr (.binary span op left right)) (ls ++ ⟨.symbol op.symbol, here⟩ :: rs)
  | compare {b op ls left rs right span here} (hleft : DerivesExpr b .sum ls left)
      (hright : DerivesExpr b .sum rs right) :
      ReadFrom (.expr (.compare span op left right)) (ls ++ ⟨.symbol op.symbol, here⟩ :: rs)
  | keyword {b ls e span id here assign} (h : DerivesExpr b .loosest ls e) :
      ReadFrom (.keyword (.mk span id e)) (⟨.name id, here⟩ :: ⟨.symbol .assign, assign⟩ :: ls)
  | param {span here id} : ReadFrom (.param ⟨id, span⟩) [⟨.name id, here⟩]
  | pass {span here} : ReadFrom (.stmt (.pass span)) [⟨.reserved .pass, here⟩]
  | giveZero {span here} : ReadFrom (.stmt (.give span none)) [⟨.reserved .give, here⟩]
  | give {b ls e span here} (h : DerivesExpr b .loosest ls e) :
      ReadFrom (.stmt (.give span (some e))) (⟨.reserved .give, here⟩ :: ls)
  | assign {b ls place id rs e span here} (htarget : DerivesExpr b .loosest ls (.name place id))
      (h : DerivesExpr b .loosest rs e) :
      ReadFrom (.stmt (.assign span id e)) (ls ++ ⟨.symbol .assign, here⟩ :: rs)
  | eval {b ls e span} (h : DerivesExpr b .loosest ls e) : ReadFrom (.stmt (.eval span e)) ls
  | define {b inside params ls body span define id name opening closing colon}
      (hparams : DerivesParams inside params) (hbody : DerivesSuite b ls body) :
      ReadFrom (.stmt (.define span id params body))
        (⟨.reserved .define, define⟩ :: ⟨.name id, name⟩ :: ⟨.symbol .leftParen, opening⟩ ::
          (inside ++ ⟨.symbol .rightParen, closing⟩ :: ⟨.symbol .colon, colon⟩ :: ls))
  | branch {b word ts test ls body rs orelse span here colon}
      (htest : DerivesExpr (b + 1) .loosest ts test) (hbody : DerivesSuite b ls body)
      (horelse : DerivesElse (b + 1) rs orelse) :
      ReadFrom (.stmt (.branch span test body orelse))
        (⟨.reserved word, here⟩ :: (ts ++ ⟨.symbol .colon, colon⟩ :: (ls ++ rs)))
  | loop {b ts test ls body span here colon} (htest : DerivesExpr (b + 1) .loosest ts test)
      (hbody : DerivesSuite b ls body) :
      ReadFrom (.stmt (.loop span test body))
        (⟨.reserved .repeating, here⟩ :: (ts ++ ⟨.symbol .colon, colon⟩ :: ls))

/-! ## Places -/

/-- Where a node with the given lexemes stands. -/
def Node.placeIn (own : List Lexeme) : Node → Option Span
  | expr (.binary _ _ left right) | expr (.compare _ _ left right) => Span.join left.span right.span
  | stmt (.eval _ e) => e.span
  | _ => some (stretch own)

/-- A place that leaves out nothing of the lexemes but opening parentheses in front and closing ones at
the end. -/
def LeavesOutParens (own : List Lexeme) (s : Span) : Prop :=
  ∃ opens inner closes, own = opens ++ (inner ++ closes) ∧ FirstIsWord inner ∧
    (∀ l ∈ opens, l.token = .symbol .leftParen) ∧ (∀ l ∈ closes, l.token = .symbol .rightParen) ∧
    s = stretch inner

namespace LeavesOutParens

variable {ls rs : List Lexeme} {s t : Span}

theorem of_stretch (h : FirstIsWord ls) : LeavesOutParens ls (stretch ls) :=
  ⟨[], ls, [], (List.append_nil _).symm, h, by simp, by simp, rfl⟩

theorem parens {opening closing : Span} (h : LeavesOutParens ls s) :
    LeavesOutParens
      (⟨.symbol .leftParen, opening⟩ :: (ls ++ [⟨.symbol .rightParen, closing⟩])) s := by
  obtain ⟨opens, inner, closes, rfl, hfirst, hopens, hcloses, rfl⟩ := h
  refine ⟨⟨.symbol .leftParen, opening⟩ :: opens, inner, closes ++ [⟨.symbol .rightParen, closing⟩],
    by simp, hfirst, List.forall_mem_cons.2 ⟨rfl, hopens⟩,
    List.forall_mem_append.2 ⟨hcloses, by simp⟩, rfl⟩

/-- The stretch of lexemes that begin and end with others is that from the former to the latter. -/
theorem stretch_append {inner inner' : List Lexeme} (between : List Lexeme) (h : FirstIsWord inner)
    (h' : FirstIsWord inner') :
    stretch (inner ++ (between ++ inner')) = (stretch inner).through (stretch inner') := by
  obtain ⟨l, ls, rfl, -⟩ := h
  obtain ⟨l', ls', rfl, hl'⟩ := h'
  rw [List.cons_append, stretch, lastOf_append, lastOf_append, lastOf, hl']
  rfl

theorem join {l : Lexeme} (h : LeavesOutParens ls s) (h' : LeavesOutParens rs t) :
    LeavesOutParens (ls ++ l :: rs) (s.through t) := by
  obtain ⟨opens, inner, closes, rfl, hfirst, hopens, -, rfl⟩ := h
  obtain ⟨opens', inner', closes', rfl, hfirst', -, hcloses', rfl⟩ := h'
  -- the parentheses next to the operator are left in, those at the ends are not
  refine ⟨opens, inner ++ ((closes ++ l :: opens') ++ inner'), closes', by simp,
    hfirst.append _, hopens, hcloses', (stretch_append _ hfirst hfirst').symm⟩

/-- Where there is no parenthesis at the ends, nothing is left out. -/
theorem eq_stretch (h : LeavesOutParens ls s) (hopen : ∀ l ∈ ls.head?, l.token ≠ .symbol .leftParen)
    (hclose : ∀ l ∈ ls.getLast?, l.token ≠ .symbol .rightParen) : s = stretch ls := by
  obtain ⟨opens, inner, closes, rfl, -, hopens, hcloses, rfl⟩ := h
  have hnone : opens = [] := by
    cases opens with
    | nil => rfl
    | cons l _ => exact absurd (hopens l (.head _)) (hopen l rfl)
  have hnone' : closes = [] := by
    by_contra hne
    have hlast := List.getLast?_eq_getLast_of_ne_nil hne
    refine hclose _ ?_ (hcloses _ (List.getLast_mem hne))
    rw [List.getLast?_append_of_ne_nil _ (by simp [hne]), List.getLast?_append_of_ne_nil _ hne, hlast]
    rfl
  rw [hnone, hnone', List.append_nil, List.nil_append]

end LeavesOutParens

/-- A node that was read from lexemes, and where it stands for this. -/
structure Node.Placed (n : Node) (own : List Lexeme) : Prop where
  readFrom : n.ReadFrom own
  span_eq : n.span = n.placeIn own
  leavesOut : ∃ s, n.span = some s ∧ LeavesOutParens own s

/-- Nodes are read from parts of the lexemes. -/
def PlacedIn (used : List Lexeme) (nodes : List Node) : Prop :=
  ∀ n ∈ nodes, ∃ own, own <:+: used ∧ n.Placed own

namespace PlacedIn

variable {used used' : List Lexeme} {n : Node} {nodes more : List Node}

theorem nil : PlacedIn used [] := by simp [PlacedIn]

theorem mono (h : PlacedIn used nodes) (hused : used <:+: used') : PlacedIn used' nodes :=
  fun n hn => (h n hn).imp fun _ ⟨hown, hplaced⟩ => ⟨hown.trans hused, hplaced⟩

/-- Lexemes may be added in front. -/
theorem behind {l : Lexeme} (h : PlacedIn used nodes) : PlacedIn (l :: used) nodes :=
  h.mono (List.suffix_cons _ _).isInfix

/-- Lexemes may be added at the end. -/
theorem left (h : PlacedIn used nodes) : PlacedIn (used ++ used') nodes :=
  h.mono (List.prefix_append _ _).isInfix

theorem right (h : PlacedIn used' nodes) : PlacedIn (used ++ used') nodes :=
  h.mono (List.suffix_append _ _).isInfix

theorem append (h : PlacedIn used nodes) (h' : PlacedIn used more) : PlacedIn used (nodes ++ more) :=
  List.forall_mem_append.2 ⟨h, h'⟩

theorem cons (h : n.Placed used) (h' : PlacedIn used nodes) : PlacedIn used (n :: nodes) :=
  List.forall_mem_cons.2 ⟨⟨used, List.infix_rfl, h⟩, h'⟩

end PlacedIn

theorem Node.Placed.of_stretch {n : Node} {own : List Lexeme} (h : n.ReadFrom own)
    (hfirst : FirstIsWord own) (hspan : n.span = some (stretch own))
    (hplace : n.placeIn own = some (stretch own)) : n.Placed own :=
  ⟨h, hspan.trans hplace.symm, stretch own, hspan, .of_stretch hfirst⟩

/-! ## Expressions -/

/-- The place of an expression leaves out no more than parentheses. -/
theorem DerivesExpr.leavesOut {b : Nat} {k : Strength} {used : List Lexeme} {e : Expr} :
    DerivesExpr b k used e → ∃ s, e.span = some s ∧ LeavesOutParens used s
  | .number | .text | .name => ⟨_, rfl, .of_stretch ⟨_, _, rfl, rfl⟩⟩
  | .parens h => by
    obtain ⟨s, hs, hleaves⟩ := h.leavesOut
    exact ⟨s, hs, hleaves.parens⟩
  | .member h hused => ⟨_, rfl, .of_stretch (hused ▸ h.firstIsWord.append _)⟩
  | .call h _ hused => ⟨_, rfl, .of_stretch (hused ▸ h.firstIsWord.append _)⟩
  | .negate _ hused => ⟨_, rfl, .of_stretch ⟨_, _, hused, rfl⟩⟩
  | .binary hleft hright | .compare hleft hright => by
    obtain ⟨s, hs, hleaves⟩ := hleft.leavesOut
    obtain ⟨t, ht, hleaves'⟩ := hright.leavesOut
    exact ⟨s.through t, congrArg₂ Span.join hs ht, hleaves.join hleaves'⟩
  | .loosen h => h.leavesOut

mutual

theorem DerivesExpr.placed {b : Nat} {k : Strength} {used : List Lexeme} {e : Expr} :
    DerivesExpr b k used e → PlacedIn used e.nodes
  | .number => .cons (.of_stretch .number ⟨_, _, rfl, rfl⟩ rfl rfl) .nil
  | .text => .cons (.of_stretch .text ⟨_, _, rfl, rfl⟩ rfl rfl) .nil
  | .name => .cons (.of_stretch .name ⟨_, _, rfl, rfl⟩ rfl rfl) .nil
  | .parens h => h.placed.left.behind
  | .member h hused => by
    subst hused
    exact .cons (.of_stretch (.member h) (h.firstIsWord.append _) rfl rfl) h.placed.left
  | .call hcallee hargs hused => by
    subst hused
    exact .cons (.of_stretch (.call hcallee hargs) (hcallee.firstIsWord.append _) rfl rfl)
      (hcallee.placed.left.append hargs.placed.left.behind.right)
  | .negate h hused => by
    subst hused
    exact .cons (.of_stretch (.negate h) ⟨_, _, rfl, rfl⟩ rfl rfl) h.placed.behind
  | .binary hleft hright =>
    .cons ⟨.binary hleft hright, rfl, (DerivesExpr.binary hleft hright).leavesOut⟩
      (hleft.placed.left.append hright.placed.behind.right)
  | .compare hleft hright =>
    .cons ⟨.compare hleft hright, rfl, (DerivesExpr.compare hleft hright).leavesOut⟩
      (hleft.placed.left.append hright.placed.behind.right)
  | .loosen h => h.placed

theorem DerivesArgs.placed {b : Nat} {used : List Lexeme} {args : List Expr}
    {keywords : List Keyword} : DerivesArgs b used args keywords →
    PlacedIn used (nodesOf args ++ nodesBy keywords)
  | .nil => .nil
  | .positional h hrest => by
    rw [nodesOf, List.append_assoc]
    exact h.placed.left.append hrest.placed.right
  | @DerivesArgs.keyword _ used _ e _ _ id _ _ h hused hrest _ => by
    have hkeyword : PlacedIn used (.keyword (.mk (stretch used) id e) :: e.nodes) := by
      subst hused
      exact .cons (.of_stretch (.keyword h) ⟨_, _, rfl, rfl⟩ rfl rfl) h.placed.behind.behind
    exact hkeyword.left.append hrest.placed.right

theorem DerivesMoreArgs.placed {b : Nat} {used : List Lexeme} {args : List Expr}
    {keywords : List Keyword} : DerivesMoreArgs b used args keywords →
    PlacedIn used (nodesOf args ++ nodesBy keywords)
  | .nil => .nil
  | .cons hargs => hargs.placed.behind

end

/-! ## Statements -/

mutual

theorem DerivesParams.placed {used : List Lexeme} {params : List Param} :
    DerivesParams used params → PlacedIn used (params.map .param)
  | .nil => .nil
  | @DerivesParams.cons _ _ id span hrest _ => by
    have hparam : PlacedIn [⟨.name id, span⟩] [.param ⟨id, span⟩] :=
      .cons (.of_stretch .param ⟨_, _, rfl, rfl⟩ rfl rfl) .nil
    exact hparam.left.append hrest.placed.behind

theorem DerivesMoreParams.placed {used : List Lexeme} {params : List Param} :
    DerivesMoreParams used params → PlacedIn used (params.map .param)
  | .nil => .nil
  | .cons h => h.placed.behind

end

theorem DerivesSimple.placed {b : Nat} {used : List Lexeme} {s : Stmt} :
    DerivesSimple b used s → PlacedIn used s.nodes
  | .pass => .cons (.of_stretch .pass ⟨_, _, rfl, rfl⟩ rfl rfl) .nil
  | .giveZero => .cons (.of_stretch .giveZero ⟨_, _, rfl, rfl⟩ rfl rfl) .nil
  | .give h hused => by
    subst hused
    exact .cons (.of_stretch (.give h) ⟨_, _, rfl, rfl⟩ rfl rfl) h.placed.behind
  | .assign htarget h hused => by
    subst hused
    exact .cons (.of_stretch (.assign htarget h) (htarget.firstIsWord.append _) rfl rfl)
      h.placed.behind.right
  | .eval h => .cons ⟨.eval h, rfl, h.leavesOut⟩ h.placed

mutual

theorem DerivesStmt.placed {b : Nat} {used : List Lexeme} {s : Stmt} :
    DerivesStmt b used s → PlacedIn used s.nodes
  | .line hs => hs.placed.left
  | .define hparams hbody hused => by
    subst hused
    exact .cons (.of_stretch (.define hparams hbody) ⟨_, _, rfl, rfl⟩ rfl rfl)
      (hparams.placed.left.append hbody.placed.behind.behind.right).behind.behind.behind
  | .branch h => h.placed
  | .loop htest hbody hused => by
    subst hused
    exact .cons (.of_stretch (.loop htest hbody) ⟨_, _, rfl, rfl⟩ rfl rfl)
      (htest.placed.left.append hbody.placed.behind.right).behind

theorem DerivesBranch.placed {b : Nat} {word : Reserved} {used : List Lexeme} {s : Stmt} :
    DerivesBranch b word used s → PlacedIn used s.nodes
  | .mk htest hbody horelse hused => by
    subst hused
    exact .cons (.of_stretch (.branch htest hbody horelse) ⟨_, _, rfl, rfl⟩ rfl rfl)
      (htest.placed.left.append (hbody.placed.left.append horelse.placed.right).behind.right).behind

theorem DerivesElse.placed {b : Nat} {used : List Lexeme} {block : List Stmt} :
    DerivesElse b used block → PlacedIn used (nodesIn block)
  | .absent => .nil
  | .link h => by
    rw [nodesIn, nodesIn, List.append_nil]
    exact h.placed
  | .otherwise h => h.placed.behind.behind

theorem DerivesSuite.placed {b : Nat} {used : List Lexeme} {block : List Stmt} :
    DerivesSuite b used block → PlacedIn used (nodesIn block)
  | .line hs => by
    rw [nodesIn, nodesIn, List.append_nil]
    exact hs.placed.left
  | .block h _ => h.placed.left.behind.behind

theorem DerivesBlock.placed {b : Nat} {used : List Lexeme} {block : List Stmt} :
    DerivesBlock b used block → PlacedIn used (nodesIn block)
  | .nil => .nil
  | .cons h hrest => h.placed.left.append hrest.placed.right

end

theorem DerivesProgram.placed {used : List Lexeme} {p : Program} (hp : DerivesProgram used p) :
    PlacedIn used p.nodes := by
  induction hp with
  | done => exact .nil
  | newline _ ih => exact ih.behind
  | stmt h _ ih => exact h.placed.left.append ih.right

/-- Every node of a program that was read is read from some of the lexemes of the text, one behind the
other, and stands where these stand, except that an operator stands where its operands stand and an
expression statement where its expression stands. Their places leave out parentheses at their ends and
nothing else, so that without parentheses there they are where their lexemes stand. -/
theorem Program.placed_of_parse {source : String} {p : Program} (h : Program.parse source = .ok p) :
    ∃ lexemes, scan source = .ok lexemes ∧
      ∀ n ∈ p.nodes, ∃ own, own <:+: lexemes ∧ n.ReadFrom own ∧ n.span = n.placeIn own ∧
        (∃ s, n.span = some s ∧ LeavesOutParens own s) ∧
        ((∀ l ∈ own.head?, l.token ≠ .symbol .leftParen) →
          (∀ l ∈ own.getLast?, l.token ≠ .symbol .rightParen) → n.span = some (stretch own)) := by
  obtain ⟨lexemes, hscan, hderives⟩ := Program.derives_of_parse h
  refine ⟨lexemes, hscan, fun n hn => ?_⟩
  obtain ⟨own, hown, hplaced⟩ := hderives.placed n hn
  obtain ⟨s, hs, hleaves⟩ := hplaced.leavesOut
  refine ⟨own, hown, hplaced.readFrom, hplaced.span_eq, ⟨s, hs, hleaves⟩, fun hopen hclose => ?_⟩
  rw [hs, hleaves.eq_stretch hopen hclose]

/-- A source with a parenthesis around the left operand of a sum. -/
def parenthesizedSource : String := "x = (1) + 2\n"

theorem placed_of_parse_parenthesizedSource : ∃ p lexemes,
    Program.parse parenthesizedSource = .ok p ∧ scan parenthesizedSource = .ok lexemes ∧
      ∀ n ∈ Program.nodes p, ∃ own, own <:+: lexemes ∧ n.ReadFrom own ∧ n.span = n.placeIn own := by
  have hparsed : (Program.parse parenthesizedSource).toOption.isSome = true := by decide +kernel
  cases h : Program.parse parenthesizedSource with
  | error e =>
    rw [h] at hparsed
    cases hparsed
  | ok p =>
    obtain ⟨lexemes, hscan, hplaced⟩ := Program.placed_of_parse h
    refine ⟨p, lexemes, rfl, hscan, fun n hn => ?_⟩
    obtain ⟨own, hown, hread, hspan, -⟩ := hplaced n hn
    exact ⟨own, hown, hread, hspan⟩

/-- The sum begins at the `1`, and not at the parenthesis in front of it. -/
example : ((Program.parse parenthesizedSource).toOption.map fun p => p.nodes.map Node.span) =
    some [some ⟨1, 0, 1, 11⟩, some ⟨1, 5, 1, 11⟩, some ⟨1, 5, 1, 6⟩, some ⟨1, 10, 1, 11⟩] := by
  decide +kernel

end Stampline
