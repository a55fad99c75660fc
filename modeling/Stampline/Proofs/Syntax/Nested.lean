import Stampline.Proofs.Syntax.Nodes
import Stampline.Proofs.Syntax.Recognized
import Stampline.Proofs.Token.Ordered

/-!
# Nodes nest and follow the source

In a program that was read, every node stands somewhere, within the node above it, and does not begin
before the sibling to its left has ended.
-/

namespace Stampline

/-! ## Places of nodes -/

namespace Node

/-- A node stands within another. -/
def Within (n m : Node) : Prop := ∃ s t, n.span = some s ∧ m.span = some t ∧ s.Within t

/-- A node ends where another begins, or before. -/
def Before (n m : Node) : Prop := ∃ s t, n.span = some s ∧ m.span = some t ∧ s.final ≤ t.first

/-- A node stands somewhere, and the nodes directly below it stand within it. -/
structure Nested (n : Node) : Prop where
  located : n.span.isSome
  within : ∀ m ∈ n.children, m.Within n

/-- A node stands somewhere and does not end before it begins. The nodes directly below it stand
within it, one before the next. -/
structure Orderly (n : Node) : Prop extends Nested n where
  forward : ∀ s, n.span = some s → s.first ≤ s.final
  inOrder : n.children.Pairwise Before

end Node

/-- Nodes follow one another from the position `lo` to the position `hi`, and so do those below each
of them from its beginning to its end. -/
inductive InLine : Position → List Node → Position → Prop where
  | nil {lo hi} (h : lo ≤ hi) : InLine lo [] hi
  | cons {lo hi n ns s} (hspan : n.span = some s) (hlo : lo ≤ s.first) (hs : s.first ≤ s.final)
      (hbelow : InLine s.first n.children s.final) (hrest : InLine s.final ns hi) :
      InLine lo (n :: ns) hi

namespace InLine

variable {lo lo' mid hi hi' : Position} {n m : Node} {ns ms : List Node}

theorem le (h : InLine lo ns hi) : lo ≤ hi := by
  induction h with
  | nil h => exact h
  | cons _ hlo hs _ _ _ ih => exact hlo.trans (hs.trans ih)

theorem mono_left (hlo : lo' ≤ lo) : InLine lo ns hi → InLine lo' ns hi
  | .nil h => .nil (hlo.trans h)
  | .cons hspan h hs hbelow hrest => .cons hspan (hlo.trans h) hs hbelow hrest

theorem append (h : InLine lo ns mid) (h' : InLine mid ms hi) : InLine lo (ns ++ ms) hi := by
  induction h with
  | nil hle => exact h'.mono_left hle
  | cons hspan hlo hs hbelow _ _ ih => exact .cons hspan hlo hs hbelow (ih h')

theorem mono_right (h : InLine lo ns hi) (hhi : hi ≤ hi') : InLine lo ns hi' :=
  List.append_nil ns ▸ h.append (.nil hhi)

/-- Nodes in line stand between the two positions. -/
theorem exists_span (h : InLine lo ns hi) :
    ∀ n ∈ ns, ∃ s, n.span = some s ∧ lo ≤ s.first ∧ s.final ≤ hi := by
  induction h with
  | nil => exact nofun
  | cons hspan hlo hs _ hrest _ ih =>
    rintro n (_ | ⟨_, hn⟩)
    · exact ⟨_, hspan, hlo, hrest.le⟩
    · obtain ⟨t, ht, hfirst, hfinal⟩ := ih n hn
      exact ⟨t, ht, hlo.trans (hs.trans hfirst), hfinal⟩

theorem pairwise (h : InLine lo ns hi) : ns.Pairwise Node.Before := by
  induction h with
  | nil => exact .nil
  | cons hspan _ _ _ hrest _ ih =>
    refine .cons (fun m hm => ?_) ih
    obtain ⟨t, ht, hfirst, -⟩ := hrest.exists_span m hm
    exact ⟨_, t, hspan, ht, hfirst⟩

/-- Nodes in line are orderly, and so are all nodes below them. -/
theorem orderly (h : InLine lo ns hi) : ∀ n ∈ ns.flatMap Node.nodes, n.Orderly := by
  induction h with
  | nil => exact nofun
  | @cons _ _ n _ s hspan _ hs hbelow _ ihbelow ihrest =>
    simp only [List.flatMap_cons, n.nodes_eq, List.forall_mem_append, List.forall_mem_cons]
    refine ⟨⟨⟨⟨by rw [hspan]; rfl, fun m hm => ?_⟩, ?_, hbelow.pairwise⟩, ihbelow⟩, ihrest⟩
    · obtain ⟨t, ht, hfirst, hfinal⟩ := hbelow.exists_span m hm
      exact ⟨t, s, ht, hspan, hfirst, hfinal⟩
    · rintro t ht
      obtain rfl := Option.some.inj (hspan.symm.trans ht)
      exact hs

/-- Two nodes in line, and where both of them together stand. -/
theorem pair (h : InLine lo [n] mid) (h' : InLine mid [m] hi) :
    ∃ s t, n.span = some s ∧ m.span = some t ∧ lo ≤ s.first ∧ s.first ≤ t.final ∧ t.final ≤ hi ∧
      InLine s.first [n, m] t.final := by
  obtain _ | ⟨hspan, hlo, hs, hbelow, hrest⟩ := h
  obtain _ | ⟨hspan', hlo', hs', hbelow', hrest'⟩ := h'
  have hst := hrest.le.trans hlo'
  exact ⟨_, _, hspan, hspan', hlo, hs.trans (hst.trans hs'), hrest'.le,
    .cons hspan (le_refl _) hs hbelow (.cons hspan' hst hs' hbelow' (.nil (le_refl _)))⟩

end InLine

/-! ## Lexemes and nodes -/

/-- The first lexeme is no layout. -/
def FirstIsWord (used : List Lexeme) : Prop := ∃ l ls, used = l :: ls ∧ l.token.isLayout = false

theorem FirstIsWord.append {used : List Lexeme} (h : FirstIsWord used) (ls : List Lexeme) :
    FirstIsWord (used ++ ls) := by
  obtain ⟨l, ls', rfl, hl⟩ := h
  exact ⟨l, ls' ++ ls, rfl, hl⟩

theorem DerivesExpr.firstIsWord {b : Nat} {k : Strength} {used : List Lexeme} {e : Expr}
    (h : DerivesExpr b k used e) : FirstIsWord used := by
  obtain ⟨t, ts, htokens, ht, -⟩ := h.begin
  obtain ⟨l, ls, rfl, rfl, -⟩ := List.map_eq_cons_iff.1 htokens
  refine ⟨l, ls, rfl, ?_⟩
  cases hl : l.token <;> rw [hl] at ht <;> first | rfl | cases ht

/-- Lexemes that follow one another do so within their stretch. -/
theorem Follow.stretch {lo hi : Position} {used : List Lexeme} (hfirst : FirstIsWord used)
    (h : Follow lo used hi) :
    lo ≤ (stretch used).first ∧ (stretch used).first ≤ (stretch used).final ∧
      (stretch used).final ≤ hi ∧ Follow (stretch used).first used (stretch used).final := by
  obtain ⟨l, ls, rfl, hl⟩ := hfirst
  obtain ⟨hlo, hspan, hrest⟩ := (Follow.cons hl).1 h
  have hlast : ∀ {ls : List Lexeme} {last : Span}, Follow last.final ls hi →
      Follow last.final ls (lastOf last ls).final ∧ (lastOf last ls).final ≤ hi := by
    intro ls
    induction ls with
    | nil => exact fun h => ⟨le_refl _, h⟩
    | cons m ms ih =>
      intro last h
      cases hm : m.token.isLayout with
      | true =>
        rw [lastOf, hm, Follow.cons_layout hm]
        exact ih ((Follow.cons_layout hm).1 h)
      | false =>
        obtain ⟨h₁, h₂, h₃⟩ := (Follow.cons hm).1 h
        rw [lastOf, hm, Follow.cons hm]
        exact ⟨⟨h₁, h₂, (ih h₃).1⟩, (ih h₃).2⟩
  obtain ⟨hfollow, hhi⟩ := hlast hrest
  exact ⟨hlo, hspan.trans hfollow.le, hhi, (Follow.cons hl).2 ⟨le_refl _, hspan, hfollow⟩⟩

/-- A node that stands where its lexemes stand, if these are those of its children in line. -/
theorem InLine.of_stretch {lo hi : Position} {used : List Lexeme} {n : Node} (hfirst : FirstIsWord used)
    (hspan : n.span = some (stretch used))
    (hbelow : ∀ {lo hi}, Follow lo used hi → InLine lo n.children hi) (h : Follow lo used hi) :
    InLine lo [n] hi := by
  obtain ⟨hlo, hs, hhi, hfollow⟩ := h.stretch hfirst
  exact .cons hspan hlo hs (hbelow hfollow) (.nil hhi)

/-- A node that stands where its one lexeme stands and has nothing below it. -/
theorem InLine.of_lexeme {lo hi : Position} {l : Lexeme} {n : Node} (hl : l.token.isLayout = false)
    (hspan : n.span = some l.span) (hchildren : n.children = []) (h : Follow lo [l] hi) :
    InLine lo [n] hi := by
  obtain ⟨hlo, hs, hhi⟩ := (Follow.cons hl).1 h
  exact .cons hspan hlo hs (hchildren ▸ .nil hs) (.nil hhi)

/-! ## Expressions -/

mutual

theorem DerivesExpr.inLine {b : Nat} {k : Strength} {used : List Lexeme} {e : Expr} {lo hi : Position} :
    DerivesExpr b k used e → Follow lo used hi → InLine lo [.expr e] hi
  | .number, h | .text, h | .name, h => .of_lexeme rfl rfl rfl h
  | .parens he, h => by
    obtain ⟨mid, hused, hrest⟩ := Follow.append_iff.1 h.tail
    exact (he.inLine hused).mono_right hrest.le
  | .member he hused, h => by
    refine .of_stretch (hused ▸ he.firstIsWord.append _) rfl (fun h => ?_) h
    obtain ⟨mid, hls, hrest⟩ := Follow.append_iff.1 (hused ▸ h)
    exact (he.inLine hls).mono_right hrest.le
  | .call hcallee hargs hused, h => by
    refine .of_stretch (hused ▸ hcallee.firstIsWord.append _) rfl (fun h => ?_) h
    obtain ⟨mid, hls, hrest⟩ := Follow.append_iff.1 (hused ▸ h)
    obtain ⟨mid', hinside, hclosing⟩ := Follow.append_iff.1 hrest.tail
    exact (hcallee.inLine hls).append ((hargs.inLine hinside).mono_right hclosing.le)
  | .negate he hused, h => by
    refine .of_stretch ⟨_, _, hused, rfl⟩ rfl (fun h => ?_) h
    exact he.inLine (hused ▸ h : Follow _ (_ :: _) _).tail
  | .binary hleft hright, h | .compare hleft hright, h => by
    obtain ⟨mid, hls, hrs⟩ := Follow.append_iff.1 h
    obtain ⟨s, t, hs, ht, hlo, hst, hhi, hpair⟩ :=
      (hleft.inLine hls).pair (hright.inLine hrs.tail)
    refine .cons (s := s.through t) ?_ hlo hst hpair (.nil hhi)
    exact congrArg₂ Span.join hs ht
  | .loosen he, h => he.inLine h

theorem DerivesArgs.inLine {b : Nat} {used : List Lexeme} {args : List Expr}
    {keywords : List Keyword} {lo hi : Position} : DerivesArgs b used args keywords →
    Follow lo used hi → InLine lo (args.map .expr ++ keywords.map .keyword) hi
  | .nil, h => .nil h
  | .positional he hrest, h => by
    obtain ⟨mid, hls, hmore⟩ := Follow.append_iff.1 h
    exact (he.inLine hls).append (hrest.inLine hmore)
  | @DerivesArgs.keyword _ _ _ e _ _ id _ _ he hused hrest _, h => by
    obtain ⟨mid, hls, hmore⟩ := Follow.append_iff.1 h
    have hkeyword : InLine lo [.keyword (.mk (stretch _) id e)] mid :=
      .of_stretch ⟨_, _, hused, rfl⟩ rfl
        (fun h => he.inLine (hused ▸ h : Follow _ (_ :: _ :: _) _).tail.tail) hls
    exact hkeyword.append (hrest.inLine hmore)

theorem DerivesMoreArgs.inLine {b : Nat} {used : List Lexeme} {args : List Expr}
    {keywords : List Keyword} {lo hi : Position} : DerivesMoreArgs b used args keywords →
    Follow lo used hi → InLine lo (args.map .expr ++ keywords.map .keyword) hi
  | .nil, h => .nil h
  | .cons hargs, h => hargs.inLine h.tail

end

/-! ## Statements -/

mutual

theorem DerivesParams.inLine {used : List Lexeme} {params : List Param} {lo hi : Position} :
    DerivesParams used params → Follow lo used hi → InLine lo (params.map .param) hi
  | .nil, h => .nil h
  | .cons hmore _, h => by
    obtain ⟨hlo, hs, hrest⟩ := (Follow.cons rfl).1 h
    exact .cons rfl hlo hs (.nil hs) (hmore.inLine hrest)

theorem DerivesMoreParams.inLine {used : List Lexeme} {params : List Param} {lo hi : Position} :
    DerivesMoreParams used params → Follow lo used hi → InLine lo (params.map .param) hi
  | .nil, h => .nil h
  | .cons hparams, h => hparams.inLine h.tail

end

theorem DerivesSimple.inLine {b : Nat} {used : List Lexeme} {s : Stmt} {lo hi : Position} :
    DerivesSimple b used s → Follow lo used hi → InLine lo [.stmt s] hi
  | .pass, h | .giveZero, h => .of_lexeme rfl rfl rfl h
  | .give he hused, h => by
    refine .of_stretch ⟨_, _, hused, rfl⟩ rfl (fun h => ?_) h
    exact he.inLine (hused ▸ h : Follow _ (_ :: _) _).tail
  | .assign htarget he hused, h => by
    refine .of_stretch (hused ▸ htarget.firstIsWord.append _) rfl (fun h => ?_) h
    exact he.inLine (hused ▸ h : Follow _ (_ ++ _) _).right.tail
  | .eval he, h => by
    obtain _ | ⟨hspan, hlo, hs, hbelow, hrest⟩ := he.inLine h
    exact .cons hspan hlo hs (.cons hspan (le_refl _) hs hbelow (.nil (le_refl _))) hrest

mutual

theorem DerivesStmt.inLine {b : Nat} {used : List Lexeme} {s : Stmt} {lo hi : Position} :
    DerivesStmt b used s → Follow lo used hi → InLine lo [.stmt s] hi
  | .line hs, h => by
    obtain ⟨mid, hls, hrest⟩ := Follow.append_iff.1 h
    exact (hs.inLine hls).mono_right hrest.le
  | .define hparams hbody hused, h => by
    refine .of_stretch ⟨_, _, hused, rfl⟩ rfl (fun h => ?_) h
    obtain ⟨mid, hinside, hrest⟩ :=
      Follow.append_iff.1 (hused ▸ h : Follow _ (_ :: _ :: _ :: _) _).tail.tail.tail
    exact (hparams.inLine hinside).append (hbody.inLine hrest.tail.tail)
  | .branch hbranch, h => hbranch.inLine h
  | .loop htest hbody hused, h => by
    refine .of_stretch ⟨_, _, hused, rfl⟩ rfl (fun h => ?_) h
    obtain ⟨mid, hts, hrest⟩ := Follow.append_iff.1 (hused ▸ h : Follow _ (_ :: _) _).tail
    exact (htest.inLine hts).append (hbody.inLine hrest.tail)

theorem DerivesBranch.inLine {b : Nat} {word : Reserved} {used : List Lexeme} {s : Stmt}
    {lo hi : Position} : DerivesBranch b word used s → Follow lo used hi → InLine lo [.stmt s] hi
  | .mk htest hbody horelse hused, h => by
    refine .of_stretch ⟨_, _, hused, rfl⟩ rfl (fun h => ?_) h
    obtain ⟨mid, hts, hrest⟩ := Follow.append_iff.1 (hused ▸ h : Follow _ (_ :: _) _).tail
    obtain ⟨mid', hls, hrs⟩ := Follow.append_iff.1 hrest.tail
    exact (htest.inLine hts).append ((hbody.inLine hls).append (horelse.inLine hrs))

theorem DerivesElse.inLine {b : Nat} {used : List Lexeme} {block : List Stmt} {lo hi : Position} :
    DerivesElse b used block → Follow lo used hi → InLine lo (block.map .stmt) hi
  | .absent, h => .nil h
  | .link hbranch, h => hbranch.inLine h
  | .otherwise hsuite, h => hsuite.inLine h.tail.tail

theorem DerivesSuite.inLine {b : Nat} {used : List Lexeme} {block : List Stmt} {lo hi : Position} :
    DerivesSuite b used block → Follow lo used hi → InLine lo (block.map .stmt) hi
  | .line hs, h => by
    obtain ⟨mid, hls, hrest⟩ := Follow.append_iff.1 h
    exact (hs.inLine hls).mono_right hrest.le
  | .block hblock _, h => by
    obtain ⟨mid, hls, hrest⟩ := Follow.append_iff.1 h.tail.tail
    exact (hblock.inLine hls).mono_right hrest.le

theorem DerivesBlock.inLine {b : Nat} {used : List Lexeme} {block : List Stmt} {lo hi : Position} :
    DerivesBlock b used block → Follow lo used hi → InLine lo (block.map .stmt) hi
  | .nil, h => .nil h
  | .cons hs hrest, h => by
    obtain ⟨mid, hls, hmore⟩ := Follow.append_iff.1 h
    exact (hs.inLine hls).append (hrest.inLine hmore)

end

theorem DerivesProgram.inLine {used : List Lexeme} {p : Program} (hp : DerivesProgram used p) :
    ∀ {lo hi : Position}, Follow lo used hi → InLine lo (p.map .stmt) hi := by
  induction hp with
  | done => exact fun h => .nil h.le
  | newline _ ih => exact fun h => ih h.tail
  | stmt hs _ ih =>
    intro lo hi h
    obtain ⟨mid, hls, hmore⟩ := Follow.append_iff.1 h
    exact (hs.inLine hls).append (ih hmore)

/-- The statements of a program that was read are in line, with all that is below them. -/
theorem Program.inLine_of_parse {source : String} {p : Program}
    (h : Program.parse source = .ok p) : ∃ hi, InLine Span.root.first (p.map .stmt) hi := by
  obtain ⟨lexemes, hscan, hderives⟩ := Program.derives_of_parse h
  obtain ⟨hi, hfollow⟩ := follow_scan hscan
  exact ⟨hi, hderives.inLine hfollow⟩

/-- Every node of a program that was read is orderly. -/
theorem Program.orderly_of_parse {source : String} {p : Program}
    (h : Program.parse source = .ok p) : ∀ n ∈ p.nodes, n.Orderly := by
  obtain ⟨hi, hline⟩ := Program.inLine_of_parse h
  rw [Program.nodes, nodesIn_eq_flatMap]
  exact hline.orderly

/-- Every node of a program that was read stands somewhere. -/
theorem Program.located_of_parse {source : String} {p : Program}
    (h : Program.parse source = .ok p) : p.firstUnlocated? = none :=
  Program.firstUnlocated?_eq_none.2 fun n hn => (Program.orderly_of_parse h n hn).located

end Stampline
