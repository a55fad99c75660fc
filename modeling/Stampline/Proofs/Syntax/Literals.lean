import Stampline.Proofs.Syntax.Recognized

/-!
# The literals of a program are the integers of its text

A walk meets the integers of a program in the order in which they were read. So whatever lexemes
derive, the literals that are noted are the integers among those lexemes.
-/

namespace Stampline

/-- The integer literal that a lexeme is, if it is one. -/
def Lexeme.literal? (l : Lexeme) : Option Literal :=
  match l.token with
  | .integer value => some ⟨value, l.span⟩
  | _ => none

/-- The integer literals among lexemes. -/
def literalsOf (ls : List Lexeme) : List Literal := ls.filterMap Lexeme.literal?

/-- What an observer that has noted `seen` has noted behind the lexemes. -/
def noted (ls : List Lexeme) (seen : List Literal) : List Literal := (literalsOf ls).reverse ++ seen

theorem noted_append (ls ls' : List Lexeme) (seen : List Literal) :
    noted (ls ++ ls') seen = noted ls' (noted ls seen) := by
  simp [noted, literalsOf, List.filterMap_append]

/-- A lexeme that is no integer is not noted. -/
theorem noted_cons {t : Token} {span : Span} (ls : List Lexeme) (seen : List Literal)
    (ht : Lexeme.literal? ⟨t, span⟩ = none) : noted (⟨t, span⟩ :: ls) seen = noted ls seen := by
  rw [noted, literalsOf, List.filterMap_cons_none ht]
  rfl

/-! ## Expressions -/

mutual

/-- A walk over an expression notes the integers among its lexemes. -/
theorem DerivesExpr.walk {b : Nat} {k : Strength} {used : List Lexeme} {e : Expr} :
    DerivesExpr b k used e → ∀ seen, e.walk noteLiterals seen = noted used seen
  | .number, _ | .text, _ | .name, _ => rfl
  | .parens h, seen => by
    rw [noted_cons _ _ rfl, noted_append, h.walk]
    rfl
  | .member h hused, seen => by
    subst hused
    rw [noted_append, ← h.walk]
    rfl
  | .call hcallee hargs hused, seen => by
    subst hused
    rw [noted_append, noted_cons _ _ rfl, noted_append, ← hcallee.walk, ← hargs.walk]
    rfl
  | .negate h hused, seen => by
    subst hused
    rw [noted_cons _ _ rfl, ← h.walk]
    rfl
  | .binary hleft hright, seen => by
    rw [noted_append, noted_cons _ _ rfl, ← hleft.walk, ← hright.walk]
    rfl
  | .compare hleft hright, seen => by
    rw [noted_append, noted_cons _ _ rfl, ← hleft.walk, ← hright.walk]
    rfl
  | .loosen h, seen => h.walk seen

/-- A walk over arguments notes the integers among their lexemes: those with names come last. -/
theorem DerivesArgs.walk {b : Nat} {used : List Lexeme} {args : List Expr}
    {keywords : List Keyword} : DerivesArgs b used args keywords → ∀ seen,
      walkKeywords noteLiterals keywords (walkExprs noteLiterals args seen) = noted used seen
  | .nil, _ => rfl
  | .positional h hrest, seen => by
    rw [noted_append, ← h.walk, ← hrest.walk]
    rfl
  | .keyword h hused hrest _, seen => by
    subst hused
    rw [noted_append, noted_cons _ _ rfl, noted_cons _ _ rfl, ← h.walk, ← hrest.walk]
    rfl

theorem DerivesMoreArgs.walk {b : Nat} {used : List Lexeme} {args : List Expr}
    {keywords : List Keyword} : DerivesMoreArgs b used args keywords → ∀ seen,
      walkKeywords noteLiterals keywords (walkExprs noteLiterals args seen) = noted used seen
  | .nil, _ => rfl
  | .cons h, seen => by rw [noted_cons _ _ rfl, h.walk]

end

/-! ## Statements -/

mutual

/-- There are no integers among the lexemes of parameters. -/
theorem DerivesParams.noted_eq {used : List Lexeme} {params : List Param} :
    DerivesParams used params → ∀ seen, noted used seen = seen
  | .nil, _ => rfl
  | .cons hrest _, seen => by rw [noted_cons _ _ rfl, hrest.noted_eq]

theorem DerivesMoreParams.noted_eq {used : List Lexeme} {params : List Param} :
    DerivesMoreParams used params → ∀ seen, noted used seen = seen
  | .nil, _ => rfl
  | .cons h, seen => by rw [noted_cons _ _ rfl, h.noted_eq]

end

theorem DerivesSimple.walk {b : Nat} {used : List Lexeme} {s : Stmt} (h : DerivesSimple b used s)
    (seen : List Literal) : s.walk noteLiterals seen = noted used seen := by
  cases h with
  | pass => rfl
  | giveZero => rfl
  | give h hused =>
    subst hused
    rw [noted_cons _ _ rfl, ← h.walk]
    rfl
  | assign htarget h hused =>
    subst hused
    -- The target is a name, so there are no integers among its lexemes either.
    rw [noted_append, noted_cons _ _ rfl, ← htarget.walk, ← h.walk]
    rfl
  | eval h =>
    rw [← h.walk]
    rfl

mutual

/-- A walk over a statement notes the integers among its lexemes. -/
theorem DerivesStmt.walk {b : Nat} {used : List Lexeme} {s : Stmt} :
    DerivesStmt b used s → ∀ seen, s.walk noteLiterals seen = noted used seen
  | .line h, seen => by
    rw [noted_append, ← h.walk]
    rfl
  | .define hparams hbody hused, seen => by
    subst hused
    rw [noted_cons _ _ rfl, noted_cons _ _ rfl, noted_cons _ _ rfl, noted_append,
      hparams.noted_eq, noted_cons _ _ rfl, noted_cons _ _ rfl, ← hbody.walk]
    rfl
  | .branch h, seen => h.walk seen
  | .loop htest hbody hused, seen => by
    subst hused
    rw [noted_cons _ _ rfl, noted_append, noted_cons _ _ rfl, ← htest.walk, ← hbody.walk]
    rfl

theorem DerivesBranch.walk {b : Nat} {word : Reserved} {used : List Lexeme} {s : Stmt} :
    DerivesBranch b word used s → ∀ seen, s.walk noteLiterals seen = noted used seen
  | .mk htest hbody horelse hused, seen => by
    subst hused
    rw [noted_cons _ _ rfl, noted_append, noted_cons _ _ rfl, noted_append, ← htest.walk,
      ← hbody.walk, ← horelse.walk]
    rfl

theorem DerivesElse.walk {b : Nat} {used : List Lexeme} {block : List Stmt} :
    DerivesElse b used block → ∀ seen, walkBlock noteLiterals block seen = noted used seen
  | .absent, _ => rfl
  | .link h, seen => h.walk seen
  | .otherwise h, seen => by rw [noted_cons _ _ rfl, noted_cons _ _ rfl, h.walk]

theorem DerivesSuite.walk {b : Nat} {used : List Lexeme} {block : List Stmt} :
    DerivesSuite b used block → ∀ seen, walkBlock noteLiterals block seen = noted used seen
  | .line h, seen => by
    rw [noted_append, ← h.walk]
    rfl
  | .block h _, seen => by
    rw [noted_cons _ _ rfl, noted_cons _ _ rfl, noted_append, ← h.walk]
    rfl

theorem DerivesBlock.walk {b : Nat} {used : List Lexeme} {block : List Stmt} :
    DerivesBlock b used block → ∀ seen, walkBlock noteLiterals block seen = noted used seen
  | .nil, _ => rfl
  | .cons h hrest, seen => by
    rw [noted_append, ← h.walk, ← hrest.walk]
    rfl

end

/-! ## Programs -/

theorem DerivesProgram.walk {used : List Lexeme} {p : Program} (h : DerivesProgram used p)
    (seen : List Literal) : walkBlock noteLiterals p seen = noted used seen := by
  induction h generalizing seen with
  | done => rfl
  | newline _ ih => rw [noted_cons _ _ rfl, ih]
  | stmt h _ ih =>
    rw [noted_append, ← h.walk, ← ih]
    rfl

/-- The literals of a program that is read are the integers of its text: the same values at the same
places in the same order. -/
theorem Program.literals_of_parse {source : String} {p : Program}
    (h : Program.parse source = .ok p) :
    ∃ lexemes, scan source = .ok lexemes ∧ p.literals = literalsOf lexemes := by
  obtain ⟨lexemes, hscan, hderives⟩ := Program.derives_of_parse h
  refine ⟨lexemes, hscan, ?_⟩
  show (walkBlock noteLiterals p []).reverse = _
  rw [hderives.walk, noted, List.append_nil, List.reverse_reverse]

theorem literals_of_parse_linkedSource : ∃ p, Program.parse linkedSource = .ok p ∧
    ∃ lexemes, scan linkedSource = .ok lexemes ∧ p.literals = literalsOf lexemes := by
  have hparsed : (Program.parse linkedSource).toOption.isSome = true := by decide +kernel
  cases hparse : Program.parse linkedSource with
  | error e =>
    rw [hparse] at hparsed
    cases hparsed
  | ok p => exact ⟨p, rfl, Program.literals_of_parse hparse⟩

end Stampline
