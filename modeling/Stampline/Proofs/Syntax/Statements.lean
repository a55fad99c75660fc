import Stampline.Proofs.Syntax.Operands

/-!
# Derived programs are read

The lexemes of a program that derives from the grammar are read as that program, provided that its
expressions are not too high. No statement and no second block of a conditional goes on where another
statement begins, so what comes behind a statement does not matter beyond that.
-/

namespace Stampline

open Stampline.Parser

/-! ## Readers -/

namespace Parser

section Readers

variable {m : Type → Type} [Monad m] [MonadLiftT Parser m] [Nesting m]

/-- What is read as a block, with `budget` levels of nesting left outside. -/
def bodies : Nat → Option (m (List Stmt))
  | 0 => none
  | budget + 1 => some (block budget)

/-- What is read as a link, with `budget` levels of nesting left outside. -/
def links : Nat → Option (m Stmt)
  | 0 => none
  | budget + 1 => some (conditional budget)

theorem statement_eq (budget : Nat) : (statement budget : m Stmt) =
    statementOf (expression budget) (bodies budget) (links budget) := by
  cases budget <;> rfl

theorem block_eq (budget : Nat) : (block budget : m (List Stmt)) =
    blockOf (expression budget) (statement budget) := by
  cases budget <;> rw [block] <;> rfl

theorem conditional_eq (budget : Nat) : (conditional budget : m Stmt) =
    conditionalOf (expression budget) (bodies budget) (links budget) := by
  cases budget <;> rw [conditional] <;> rfl

end Readers

end Parser

/-! ## How statements begin -/

/-- Whether a statement may begin with a token. -/
def Token.beginsStmt : Token → Bool
  | .reserved .define | .reserved .give | .reserved .whether | .reserved .repeating
  | .reserved .pass => true
  | t => t.beginsExpr

theorem Token.beginsStmt_of_beginsExpr {t : Token} (h : t.beginsExpr = true) :
    t.beginsStmt = true := by
  unfold beginsStmt
  split <;> trivial

/-- Tokens begin as those of a statement do. -/
def BeginStmt (ts : List Token) : Prop := ∃ t rest, ts = t :: rest ∧ t.beginsStmt = true

theorem Begin.stmt {ts : List Token} (us : List Token) (h : Begin ts) : BeginStmt (ts ++ us) := by
  obtain ⟨t, rest, rfl, ht, -⟩ := h
  exact ⟨t, rest ++ us, rfl, Token.beginsStmt_of_beginsExpr ht⟩

theorem DerivesSimple.begin {b : Nat} {used : List Lexeme} {s : Stmt} (ts : List Token)
    (h : DerivesSimple b used s) : BeginStmt (tokensOf used ++ ts) := by
  cases h with
  | pass => exact ⟨_, _, rfl, rfl⟩
  | giveZero => exact ⟨_, _, rfl, rfl⟩
  | give h hused => exact ⟨_, _, congrArg (fun ls => tokensOf ls ++ ts) hused, rfl⟩
  | assign htarget h hused =>
    rw [hused, tokensOf, List.map_append, List.append_assoc]
    exact htarget.begin.stmt _
  | eval h => exact h.begin.stmt _

theorem DerivesStmt.begin {b : Nat} {used : List Lexeme} {s : Stmt} (ts : List Token)
    (h : DerivesStmt b used s) : BeginStmt (tokensOf used ++ ts) := by
  cases h with
  | line h =>
    rw [tokensOf, List.map_append, List.append_assoc]
    exact h.begin _
  | define _ _ hused => exact ⟨_, _, congrArg (fun ls => tokensOf ls ++ ts) hused, rfl⟩
  | branch h =>
    cases h with
    | mk _ _ _ hused => exact ⟨_, _, congrArg (fun ls => tokensOf ls ++ ts) hused, rfl⟩
  | loop _ _ hused => exact ⟨_, _, congrArg (fun ls => tokensOf ls ++ ts) hused, rfl⟩

/-- What comes next belongs to no conditional before it. -/
def Closed (ts : List Token) : Prop :=
  ∃ t rest, ts = t :: rest ∧ t ≠ .reserved .elseWhether ∧ t ≠ .reserved .otherwise

theorem BeginStmt.closed {ts : List Token} (h : BeginStmt ts) : Closed ts := by
  obtain ⟨t, rest, rfl, ht⟩ := h
  refine ⟨t, rest, rfl, ?_, ?_⟩ <;> rintro rfl <;> cases ht

/-- No conditional goes on where the statements of a block follow. -/
theorem DerivesBlock.closed {b : Nat} {used : List Lexeme} {block : List Stmt} {ts : List Token}
    (h : DerivesBlock b used block) : Closed (tokensOf used ++ .dedent :: ts) := by
  cases h with
  | nil => exact ⟨_, _, rfl, by simp, by simp⟩
  | cons h =>
    rw [tokensOf, List.map_append, List.append_assoc]
    exact (h.begin _).closed

/-- No conditional goes on where the statements of a program follow. -/
theorem DerivesProgram.closed {used : List Lexeme} {p : Program} (h : DerivesProgram used p) :
    Closed (tokensOf used) := by
  cases h with
  | done => exact ⟨_, _, rfl, by simp, by simp⟩
  | newline => exact ⟨_, _, rfl, by simp, by simp⟩
  | stmt h =>
    rw [tokensOf, List.map_append]
    exact (h.begin _).closed

/-- What was read is a statement up to where it stands, and every node of it has a place. -/
def Stmt.Matches (s t : Stmt) : Prop := t.erase = s.erase ∧ t.firstUnlocated? = none

/-- What was read is a block up to where it stands, and every node of it has a place. -/
def BlockMatches (block read : List Stmt) : Prop :=
  eraseBlock read = eraseBlock block ∧ firstUnlocatedStmt? read = none

theorem BlockMatches.nil : BlockMatches [] [] := ⟨rfl, rfl⟩

theorem BlockMatches.cons {s t : Stmt} {block read : List Stmt} (hs : s.Matches t)
    (h : BlockMatches block read) : BlockMatches (s :: block) (t :: read) := by
  refine ⟨?_, ?_⟩
  · simp only [eraseBlock, hs.1, h.1]
  · simp [firstUnlocatedStmt?, hs.2, h.2]

section Statements

variable {b : Nat} {i : Input} {rest : List Token}

/-! ## Statements of a line -/

theorem follows_newline {ts : List Token} : Follows 1 (.newline :: ts) := Nat.zero_lt_one

/-- A statement that begins as an expression does is an expression or an assignment. -/
theorem reads_simple {toks us : List Token} {value : Parser Operand} {P : Stmt → Prop}
    (hbegin : Begin toks) (hi : i.tokens = toks ++ us)
    (h : ∀ (i : Input) (start : Span), i.tokens = toks ++ us →
      Reads (assigned value start) i rest P) : Reads (simple value) i rest P := by
  obtain ⟨t, ts, rfl, ht, -⟩ := hbegin
  refine (Reads.peek hi).bind fun l i₁ hi₁ hl => ?_
  simp only [hl]
  split
  · cases ht
  · cases ht
  · exact h i₁ l.span hi₁

theorem DerivesSimple.reads {used : List Lexeme} {s : Stmt} (h : DerivesSimple b used s)
    (hheight : s.height ≤ maxNesting) (hi : i.tokens = tokensOf used ++ .newline :: rest) :
    Reads (simple (expression b)) i (.newline :: rest) s.Matches := by
  cases h with
  | pass =>
    refine (Reads.peek hi).bind fun l i₁ hi₁ hl => ?_
    simp only [hl]
    exact (Reads.take hi₁ (by simp)).bind fun _ _ hi₂ _ => .pure hi₂ ⟨rfl, rfl⟩
  | giveZero =>
    refine (Reads.peek hi).bind fun l i₁ hi₁ hl => ?_
    simp only [hl]
    refine (Reads.take hi₁ (by simp)).bind fun _ i₂ hi₂ _ => ?_
    refine (Reads.peek hi₂).bind fun l' i₃ hi₃ hl' => ?_
    simp only [hl', if_true]
    exact (Reads.lastSpan hi₃).bind fun _ _ hi₄ _ => .pure hi₄ ⟨rfl, rfl⟩
  | @give _ ls value span h hused =>
    subst hused
    refine (Reads.peek hi).bind fun l i₁ hi₁ hl => ?_
    simp only [hl]
    refine (Reads.take hi₁ (by simp)).bind fun _ i₂ hi₂ _ => ?_
    replace hi₂ : i₂.tokens = tokensOf ls ++ .newline :: rest := hi₂
    obtain ⟨t, ts, htokens, ht, -⟩ := h.begin
    have hpeeked := hi₂
    rw [htokens, List.cons_append] at hpeeked
    refine (Reads.peek hpeeked).bind fun l' i₃ hi₃ hl' => ?_
    have hnewline : t ≠ .newline := by
      rintro rfl
      cases ht
    simp only [hl', hnewline, if_false]
    rw [← List.cons_append, ← htokens] at hi₃
    refine ((h.goes hheight).reads hi₃ follows_newline).bind fun o i₄ hi₄ ho => ?_
    refine (Reads.lastSpan hi₄).bind fun _ _ hi₅ _ => .pure hi₅ ⟨?_, ?_⟩
    · simp only [Stmt.erase, ho.erase]
    · simpa [Stmt.firstUnlocated?] using ho.located
  | @assign _ ls place id rs value span htarget h hused =>
    subst hused
    have hi : i.tokens = tokensOf ls ++ .symbol .assign :: (tokensOf rs ++ .newline :: rest) := by
      simpa using hi
    refine reads_simple htarget.begin hi fun i start hi => ?_
    have hlow : (Expr.name place id).height ≤ maxNesting := Nat.le_add_left 1 199
    refine ((htarget.goes hlow).reads hi Nat.zero_lt_one).bind fun o i₁ hi₁ ho => ?_
    refine (Reads.eat hi₁ (by simp)).bind fun found i₂ hi₂ hfound => ?_
    obtain ⟨here, ho⟩ : ∃ here, o.expr = .name here id := by
      have herase := ho.erase
      cases hexpr : o.expr <;> simp_all [Expr.erase]
    simp only [hfound, if_true, ho]
    refine ((h.goes hheight).reads hi₂ follows_newline).bind fun o' i₃ hi₃ ho' => ?_
    refine (Reads.lastSpan hi₃).bind fun _ _ hi₄ _ => .pure hi₄ ⟨?_, ?_⟩
    · simp only [Stmt.erase, ho'.erase]
    · simpa [Stmt.firstUnlocated?] using ho'.located
  | eval h =>
    refine reads_simple h.begin hi fun i start hi => ?_
    refine ((h.goes hheight).reads hi follows_newline).bind fun o i₁ hi₁ ho => ?_
    refine (Reads.eat_of_ne hi₁ (by simp)).bind fun found i₂ hi₂ hfound => ?_
    simp only [hfound]
    refine .pure hi₂ ⟨?_, ?_⟩
    · simp only [Stmt.erase, ho.erase]
    · obtain ⟨here, hhere⟩ := ho.exists_span
      simpa [Stmt.firstUnlocated?, hhere] using ho.located

theorem DerivesSimple.reads_line {used : List Lexeme} {s : Stmt} (h : DerivesSimple b used s)
    (hheight : s.height ≤ maxNesting) (hi : i.tokens = tokensOf used ++ .newline :: rest) :
    Reads (line (expression b)) i rest s.Matches :=
  (h.reads hheight hi).bind fun _ _ hi₁ hs =>
    (Reads.expect hi₁ (by simp)).bind fun _ _ hi₂ _ => .pure hi₂ hs

/-- A statement of a line begins no statement of more lines. -/
theorem DerivesSimple.not_compound {used : List Lexeme} {s : Stmt} (ts : List Token)
    (h : DerivesSimple b used s) : ∃ t us, tokensOf used ++ ts = t :: us ∧
      t ≠ .reserved .define ∧ t ≠ .reserved .whether ∧ t ≠ .reserved .repeating := by
  have hexpr : ∀ {toks : List Token} (us : List Token), Begin toks → ∃ t us', toks ++ us = t :: us' ∧
      t ≠ .reserved .define ∧ t ≠ .reserved .whether ∧ t ≠ .reserved .repeating := by
    rintro _ us ⟨t, ts, rfl, ht, -⟩
    refine ⟨t, ts ++ us, rfl, ?_, ?_, ?_⟩ <;> rintro rfl <;> cases ht
  cases h with
  | pass => exact ⟨_, _, rfl, by simp, by simp, by simp⟩
  | giveZero => exact ⟨_, _, rfl, by simp, by simp, by simp⟩
  | give h hused =>
    exact ⟨_, _, congrArg (fun ls => tokensOf ls ++ ts) hused, by simp, by simp, by simp⟩
  | assign htarget h hused =>
    rw [hused, tokensOf, List.map_append, List.append_assoc]
    exact hexpr _ htarget.begin
  | eval h => exact hexpr _ h.begin

/-- A statement of a line is read. -/
theorem DerivesSimple.reads_statement {used : List Lexeme} {s : Stmt} (h : DerivesSimple b used s)
    (hheight : s.height ≤ maxNesting) (hi : i.tokens = tokensOf used ++ .newline :: rest) :
    Reads (statement b) i rest s.Matches := by
  obtain ⟨t, us, htokens, hdefine, hwhether, hrepeating⟩ := h.not_compound (.newline :: rest)
  rw [statement_eq]
  refine (Reads.peek (hi.trans htokens)).bind fun l i₁ hi₁ hl => ?_
  rw [hl]
  split
  · exact absurd rfl hdefine
  · exact absurd rfl hwhether
  · exact absurd rfl hrepeating
  · exact h.reads_line hheight (hi₁.trans htokens.symm)

/-! ## Statements of blocks -/

/-- The tokens are read as a block behind its colon. -/
def ReadsSuite (b : Nat) (toks : List Token) (block : List Stmt) : Prop :=
  ∀ ⦃i : Input⦄ ⦃rest : List Token⦄, i.tokens = toks ++ rest →
    Reads (Parser.block b) i rest (BlockMatches block)

/-- The tokens are read as the second block of a conditional where none goes on. -/
def ReadsElse (b : Nat) (toks : List Token) (block : List Stmt) : Prop :=
  ∀ ⦃i : Input⦄ ⦃rest : List Token⦄, Closed rest → i.tokens = toks ++ rest →
    Reads (alternative (bodies b) (links b)) i rest (BlockMatches block)

/-- Reads what comes behind a parameter. -/
def furtherParams (bound : List Lexeme) (now : List Param) : Parser (List Param) := do
  if ← eat (.symbol .comma) then
    paramsFrom bound now
  else
    return now

/-- Parameters were read behind those before them, up to where they stand, and each has a place. -/
def CollectsParams (before params all : List Param) : Prop :=
  all.map Param.name = before.map Param.name ++ params.map Param.name ∧
    all.any (·.span.isNone) = false

mutual

theorem DerivesParams.reads {used : List Lexeme} {params before : List Param} {i : Input}
    {bound : List Lexeme} {rest : List Token} : DerivesParams used params →
    (∀ p ∈ params, p.name ∉ before.map Param.name) → before.any (·.span.isNone) = false →
    i.tokens = tokensOf used ++ .symbol .rightParen :: rest → i.tokens.length ≤ bound.length →
    Reads (paramsFrom bound before) i (.symbol .rightParen :: rest) (CollectsParams before params)
  | .nil, _, hbefore, hi, hbound => by
    have hi : i.tokens = .symbol .rightParen :: rest := hi
    obtain ⟨l, bound', rfl, -⟩ := Input.exists_bound hi hbound
    refine (Reads.peek hi).bind fun l i₁ hi₁ hl => ?_
    simp only [hl, if_true]
    exact .pure hi₁ ⟨(List.append_nil _).symm, hbefore⟩
  | @DerivesParams.cons more params id span hmore hnew, hfresh, hbefore, hi, hbound => by
    have hi : i.tokens = .name id :: (tokensOf more ++ .symbol .rightParen :: rest) := hi
    obtain ⟨l, bound', rfl, hbound'⟩ := Input.exists_bound hi hbound
    obtain ⟨hid, hothers⟩ := List.forall_mem_cons.1 hfresh
    refine (Reads.peek hi).bind fun l i₁ hi₁ hl => ?_
    simp only [hl]
    refine (Reads.expectName hi₁).bind fun id' i₂ hi₂ hid' => ?_
    subst hid'
    have hrepeated : before.any (·.name == id') = false := by simpa using hid
    simp only [hrepeated]
    have hdistinct : ∀ p ∈ params, p.name ∉ (before ++ [(⟨id', some l.span⟩ : Param)]).map Param.name := by
      intro p hp hmem
      rw [List.map_append, List.mem_append] at hmem
      rcases hmem with hmem | hmem
      · exact hothers p hp hmem
      · rw [List.map_singleton, List.mem_singleton] at hmem
        exact hnew (List.mem_map.2 ⟨p, hp, hmem⟩)
    have hlocated : (before ++ [(⟨id', some l.span⟩ : Param)]).any (·.span.isNone) = false := by
      rw [List.any_append, hbefore]
      rfl
    rw [← hi₂] at hbound'
    refine (hmore.reads hdistinct hlocated hi₂ (Nat.le_succ_of_le hbound')).imp ?_
    rintro all ⟨hnames, hall⟩
    exact ⟨by simpa using hnames, hall⟩

theorem DerivesMoreParams.reads {used : List Lexeme} {params before : List Param} {i : Input}
    {bound : List Lexeme} {rest : List Token} : DerivesMoreParams used params →
    (∀ p ∈ params, p.name ∉ before.map Param.name) → before.any (·.span.isNone) = false →
    i.tokens = tokensOf used ++ .symbol .rightParen :: rest →
    i.tokens.length ≤ bound.length + 1 →
    Reads (furtherParams bound before) i (.symbol .rightParen :: rest)
      (CollectsParams before params)
  | .nil, _, hbefore, hi, _ => by
    refine (Reads.eat_of_ne hi (by simp)).bind fun found i₁ hi₁ hfound => ?_
    simp only [hfound]
    exact .pure hi₁ ⟨(List.append_nil _).symm, hbefore⟩
  | .cons h, hfresh, hbefore, hi, hbound => by
    refine (Reads.eat hi (by simp)).bind fun found i₁ hi₁ hfound => ?_
    simp only [hfound, if_true]
    refine h.reads hfresh hbefore hi₁ ?_
    have hlength := congrArg List.length hi
    have hlength₁ := congrArg List.length hi₁
    simp only [List.map_cons, List.cons_append, List.append_eq, List.length_cons] at hlength hlength₁
    omega

end

/-- A block is read one level deeper. -/
theorem ReadsSuite.nested {toks : List Token} {block : List Stmt} (h : ReadsSuite b toks block)
    (hi : i.tokens = toks ++ rest) :
    Reads (nested (bodies (b + 1))) i rest (BlockMatches block) := h hi

theorem reads_define {id : String} {inside : List Lexeme} {params : List Param} {toks : List Token}
    {body : List Stmt} {span : Option Span} (hparams : DerivesParams inside params)
    (hbody : ReadsSuite b toks body)
    (hi : i.tokens = .reserved .define :: .name id :: .symbol .leftParen ::
      (tokensOf inside ++ .symbol .rightParen :: .symbol .colon :: (toks ++ rest))) :
    Reads (statement (b + 1)) i rest (Stmt.define span id params body).Matches := by
  rw [statement_eq]
  refine (Reads.peek hi).bind fun l i₁ hi₁ hl => ?_
  simp only [hl]
  refine (Reads.take hi₁ (by simp)).bind fun _ i₂ hi₂ _ => ?_
  refine (Reads.expectName hi₂).bind fun id' i₃ hi₃ hid => ?_
  subst hid
  refine (Reads.expect hi₃ (by simp)).bind fun _ i₄ hi₄ _ => ?_
  refine (Reads.remaining hi₄).bind fun bound i₅ hi₅ hbound => ?_
  have hnone : ∀ p ∈ params, p.name ∉ ([] : List Param).map Param.name := by simp
  refine (hparams.reads hnone rfl hi₅ (hi₅ ▸ Nat.le_of_eq hbound.symm)).bind
    fun all i₆ hi₆ hall => ?_
  refine (Reads.expect hi₆ (by simp)).bind fun _ i₇ hi₇ _ => ?_
  refine (Reads.expect hi₇ (by simp)).bind fun _ i₈ hi₈ _ => ?_
  refine (hbody.nested hi₈).bind fun read i₉ hi₉ hread => ?_
  refine (Reads.lastSpan hi₉).bind fun _ _ hi₁₀ _ => .pure hi₁₀ ⟨?_, ?_⟩
  · have herase : all.map Param.erase = params.map Param.erase := by
      have hmake : Param.erase = (fun name => ⟨name, none⟩) ∘ Param.name := rfl
      rw [hmake, ← List.map_map, ← List.map_map, hall.1]
      rfl
    simp only [Stmt.erase, herase, hread.1]
  · simp [Stmt.firstUnlocated?, hall.2, hread.2]

theorem reads_loop {ts : List Lexeme} {test : Expr} {toks : List Token} {body : List Stmt}
    {span : Option Span} (htest : DerivesExpr (b + 1) .loosest ts test)
    (hheight : test.height ≤ maxNesting) (hbody : ReadsSuite b toks body)
    (hi : i.tokens = .reserved .repeating :: (tokensOf ts ++ .symbol .colon :: (toks ++ rest))) :
    Reads (statement (b + 1)) i rest (Stmt.loop span test body).Matches := by
  rw [statement_eq]
  refine (Reads.peek hi).bind fun l i₁ hi₁ hl => ?_
  simp only [hl]
  refine (Reads.take hi₁ (by simp)).bind fun _ i₂ hi₂ _ => ?_
  refine ((htest.goes hheight).reads hi₂ Nat.zero_lt_one).bind fun o i₃ hi₃ ho => ?_
  refine (Reads.expect hi₃ (by simp)).bind fun _ i₄ hi₄ _ => ?_
  refine (hbody.nested hi₄).bind fun read i₅ hi₅ hread => ?_
  refine (Reads.lastSpan hi₅).bind fun _ _ hi₆ _ => .pure hi₆ ⟨?_, ?_⟩
  · simp only [Stmt.erase, ho.erase, hread.1]
  · simp [Stmt.firstUnlocated?, ho.located, hread.2]

/-- A conditional is read behind the word that it begins with. -/
theorem reads_conditional {word : Reserved} {ts : List Lexeme} {test : Expr}
    {toks toks' : List Token} {body orelse : List Stmt} {span : Option Span}
    (htest : DerivesExpr (b + 1) .loosest ts test) (hheight : test.height ≤ maxNesting)
    (hbody : ReadsSuite b toks body) (horelse : ReadsElse (b + 1) toks' orelse)
    (hrest : Closed rest)
    (hi : i.tokens = .reserved word :: (tokensOf ts ++ .symbol .colon :: (toks ++ (toks' ++ rest)))) :
    Reads (conditional (b + 1)) i rest (Stmt.branch span test body orelse).Matches := by
  rw [conditional_eq]
  refine (Reads.take hi (by simp)).bind fun _ i₁ hi₁ _ => ?_
  refine ((htest.goes hheight).reads hi₁ Nat.zero_lt_one).bind fun o i₂ hi₂ ho => ?_
  refine (Reads.expect hi₂ (by simp)).bind fun _ i₃ hi₃ _ => ?_
  refine (hbody.nested hi₃).bind fun read i₄ hi₄ hread => ?_
  refine (horelse hrest hi₄).bind fun read' i₅ hi₅ hread' => ?_
  refine (Reads.lastSpan hi₅).bind fun _ _ hi₆ _ => .pure hi₆ ⟨?_, ?_⟩
  · simp only [Stmt.erase, ho.erase, hread.1, hread'.1]
  · simp [Stmt.firstUnlocated?, ho.located, hread.2, hread'.2]

theorem readsElse_absent : ReadsElse b [] [] := by
  rintro i rest ⟨t, ts, hrest, helif, helse⟩ hi
  refine (Reads.peek (hi.trans hrest)).bind fun l i₁ hi₁ hl => ?_
  rw [hl]
  split
  · exact absurd rfl helif
  · exact absurd rfl helse
  · exact .pure (hi₁.trans hrest.symm) ⟨rfl, rfl⟩

theorem readsElse_otherwise {toks : List Token} {block : List Stmt} (h : ReadsSuite b toks block) :
    ReadsElse (b + 1) (.reserved .otherwise :: .symbol .colon :: toks) block := by
  intro i rest _ hi
  refine (Reads.peek hi).bind fun l i₁ hi₁ hl => ?_
  simp only [hl]
  refine (Reads.take hi₁ (by simp)).bind fun _ i₂ hi₂ _ => ?_
  exact (Reads.expect hi₂ (by simp)).bind fun _ i₃ hi₃ _ => h.nested hi₃

/-- The statements of an indented block are read up to its end. -/
def ReadsBlock (b : Nat) (toks : List Token) (block : List Stmt) : Prop :=
  ∀ ⦃before : List Stmt⦄ ⦃i : Input⦄ ⦃bound : List Lexeme⦄ ⦃rest : List Token⦄,
    i.tokens = toks ++ .dedent :: rest → i.tokens.length ≤ bound.length →
    Reads (statementsFrom (statement b) bound before) i rest
      fun all => ∃ read, all = before.reverse ++ read ∧ BlockMatches block read

theorem readsBlock_nil : ReadsBlock b [] [] := by
  intro before i bound rest hi hbound
  have hi : i.tokens = .dedent :: rest := hi
  obtain ⟨l, bound', rfl, -⟩ := Input.exists_bound hi hbound
  refine (Reads.eat hi (by simp)).bind fun found i₁ hi₁ hfound => ?_
  simp only [hfound, if_true]
  exact .pure hi₁ ⟨[], (List.append_nil _).symm, .nil⟩

theorem readsBlock_cons {ls rs : List Lexeme} {s : Stmt} {ss : List Stmt}
    (hderives : DerivesStmt b ls s) (hmore : DerivesBlock b rs ss)
    (h : ∀ {i : Input} {rest : List Token}, Closed rest → i.tokens = tokensOf ls ++ rest →
      Reads (statement b) i rest s.Matches)
    (hrest : ReadsBlock b (tokensOf rs) ss) :
    ReadsBlock b (tokensOf ls ++ tokensOf rs) (s :: ss) := by
  intro before i bound rest hi hbound
  rw [List.append_assoc] at hi
  obtain ⟨t, ts, htokens, ht⟩ := hderives.begin (tokensOf rs ++ .dedent :: rest)
  have hdedent : t ≠ .dedent := by
    rintro rfl
    cases ht
  have hsome : tokensOf ls ≠ [] := mt List.map_eq_nil_iff.1 hderives.ne_nil
  obtain ⟨l, bound', rfl, hbound'⟩ := Input.exists_bound_append hi hsome hbound
  refine (Reads.eat_of_ne (hi.trans htokens) hdedent).bind fun found i₁ hi₁ hfound => ?_
  simp only [hfound]
  refine (h hmore.closed (hi₁.trans htokens.symm)).bind fun read i₂ hi₂ hread => ?_
  refine (hrest hi₂ (hi₂ ▸ hbound')).imp ?_
  rintro _ ⟨more, rfl, hmore⟩
  exact ⟨read :: more, by simp, .cons hread hmore⟩

theorem ReadsBlock.suite {toks : List Token} {block : List Stmt} (h : ReadsBlock b toks block) :
    ReadsSuite b (.newline :: .indent :: (toks ++ [.dedent])) block := by
  intro i rest hi
  have hi : i.tokens = .newline :: .indent :: (toks ++ .dedent :: rest) := by simpa using hi
  rw [block_eq]
  refine (Reads.eat hi (by simp)).bind fun found i₁ hi₁ hfound => ?_
  simp only [hfound, if_true]
  refine (Reads.expect hi₁ (by simp)).bind fun _ i₂ hi₂ _ => ?_
  refine (Reads.remaining hi₂).bind fun bound i₃ hi₃ hbound => ?_
  refine (h hi₃ (hi₃ ▸ Nat.le_of_eq hbound.symm)).imp ?_
  rintro _ ⟨read, rfl, hread⟩
  exact hread

/-- A block may be a statement on the line of its colon. -/
theorem DerivesSimple.readsSuite {used : List Lexeme} {s : Stmt} (h : DerivesSimple b used s)
    (hheight : s.height ≤ maxNesting) : ReadsSuite b (tokensOf used ++ [.newline]) [s] := by
  intro i rest hi
  rw [List.append_assoc] at hi
  obtain ⟨t, us, htokens, ht⟩ := h.begin (.newline :: rest)
  have hnewline : t ≠ .newline := by
    rintro rfl
    cases ht
  rw [block_eq]
  refine (Reads.eat_of_ne (hi.trans htokens) hnewline).bind fun found i₁ hi₁ hfound => ?_
  simp only [hfound]
  exact (h.reads_line hheight (hi₁.trans htokens.symm)).bind fun read i₂ hi₂ hread =>
    .pure hi₂ (.cons hread .nil)

mutual

/-- What derives from the grammar as a statement is read where no conditional goes on. -/
theorem DerivesStmt.reads {b : Nat} {used : List Lexeme} {s : Stmt} {i : Input}
    {rest : List Token} : DerivesStmt b used s → s.height ≤ maxNesting → Closed rest →
      i.tokens = tokensOf used ++ rest → Reads (statement b) i rest s.Matches
  | .line h, hheight, _, hi => h.reads_statement hheight (by simpa using hi)
  | .define hparams hbody hused, hheight, _, hi => by
    subst hused
    exact reads_define hparams (hbody.reads hheight) (by simpa using hi)
  | .branch h, hheight, hrest, hi => by
    obtain ⟨ts, htokens⟩ := h.head rest
    rw [statement_eq]
    refine (Reads.peek (hi.trans htokens)).bind fun l i₁ hi₁ hl => ?_
    simp only [hl]
    rw [← conditional_eq]
    exact h.reads hheight hrest (hi₁.trans htokens.symm)
  | .loop htest hbody hused, hheight, _, hi => by
    subst hused
    simp only [Stmt.height] at hheight
    exact reads_loop htest (by omega) (hbody.reads (by omega)) (by simpa using hi)

theorem DerivesBranch.reads {b : Nat} {word : Reserved} {used : List Lexeme} {s : Stmt} {i : Input}
    {rest : List Token} : DerivesBranch b word used s → s.height ≤ maxNesting → Closed rest →
      i.tokens = tokensOf used ++ rest → Reads (conditional b) i rest s.Matches
  | .mk htest hbody horelse hused, hheight, hrest, hi => by
    subst hused
    simp only [Stmt.height] at hheight
    exact reads_conditional htest (by omega) (hbody.reads (by omega)) (horelse.reads (by omega))
      hrest (by simpa using hi)

theorem DerivesElse.reads {b : Nat} {used : List Lexeme} {block : List Stmt} :
    DerivesElse b used block → heightIn block ≤ maxNesting → ReadsElse b (tokensOf used) block
  | .absent, _ => readsElse_absent
  | @DerivesElse.link b _ _ h, hheight => by
    intro i rest hrest hi
    obtain ⟨ts, htokens⟩ := h.head rest
    refine (Reads.peek (hi.trans htokens)).bind fun l i₁ hi₁ hl => ?_
    simp only [hl]
    rw [← bind_pure_comp]
    simp only [heightIn] at hheight
    have hlink : Reads (nested (links (b + 1))) i₁ rest _ :=
      h.reads (by omega) hrest (hi₁.trans htokens.symm)
    exact hlink.bind fun s i₂ hi₂ hs => .pure hi₂ (.cons hs .nil)
  | .otherwise h, hheight => readsElse_otherwise (h.reads hheight)

theorem DerivesSuite.reads {b : Nat} {used : List Lexeme} {block : List Stmt} :
    DerivesSuite b used block → heightIn block ≤ maxNesting → ReadsSuite b (tokensOf used) block
  | .line h, hheight => by
    simp only [heightIn] at hheight
    simpa using h.readsSuite (by omega)
  | .block h _, hheight => by simpa using (h.reads hheight).suite

theorem DerivesBlock.reads {b : Nat} {used : List Lexeme} {block : List Stmt} :
    DerivesBlock b used block → heightIn block ≤ maxNesting → ReadsBlock b (tokensOf used) block
  | .nil, _ => readsBlock_nil
  | .cons h hrest, hheight => by
    simp only [heightIn] at hheight
    rw [tokensOf, List.map_append]
    exact readsBlock_cons h hrest (h.reads (by omega)) (hrest.reads (by omega))

end

end Statements

/-! ## Programs -/

/-- What derives from the grammar as a program is read. -/
theorem DerivesProgram.reads {used : List Lexeme} {p before : List Stmt} {i : Input}
    {bound : List Lexeme} (h : DerivesProgram used p) (hheight : heightIn p ≤ maxNesting)
    (hi : i.tokens = tokensOf used) (hbound : i.tokens.length ≤ bound.length) :
    Reads (programFrom (statement maxNesting) bound before) i [.endOfInput]
      fun all => ∃ read, all = before.reverse ++ read ∧ BlockMatches p read := by
  induction h generalizing before i bound with
  | done =>
    have hi : i.tokens = [.endOfInput] := hi
    obtain ⟨l, bound', rfl, -⟩ := Input.exists_bound hi hbound
    refine (Reads.peek hi).bind fun l i₁ hi₁ hl => ?_
    simp only [hl, if_true]
    exact .pure hi₁ ⟨[], (List.append_nil _).symm, .nil⟩
  | newline _ ih =>
    rw [tokensOf, List.map_cons] at hi
    obtain ⟨l, bound', rfl, hbound'⟩ := Input.exists_bound hi hbound
    refine (Reads.peek hi).bind fun l i₁ hi₁ hl => ?_
    simp only [hl]
    refine (Reads.eat hi₁ (by simp)).bind fun found i₂ hi₂ hfound => ?_
    simp only [hfound, if_true]
    exact ih hheight hi₂ (hi₂ ▸ hbound')
  | @stmt ls s rs ss h hrest ih =>
    simp only [heightIn] at hheight
    rw [tokensOf_append] at hi
    obtain ⟨t, ts, htokens, ht⟩ := h.begin (tokensOf rs)
    have hend : t ≠ .endOfInput := by
      rintro rfl
      cases ht
    have hnewline : t ≠ .newline := by
      rintro rfl
      cases ht
    have hsome : tokensOf ls ≠ [] := mt List.map_eq_nil_iff.1 h.ne_nil
    obtain ⟨l, bound', rfl, hbound'⟩ := Input.exists_bound_append hi hsome hbound
    refine (Reads.peek (hi.trans htokens)).bind fun l i₁ hi₁ hl => ?_
    simp only [hl, hend, if_false]
    refine (Reads.eat_of_ne hi₁ hnewline).bind fun found i₂ hi₂ hfound => ?_
    simp only [hfound]
    refine (h.reads (by omega) hrest.closed (hi₂.trans htokens.symm)).bind
      fun read i₃ hi₃ hread => ?_
    refine (ih (by omega) hi₃ (hi₃ ▸ hbound')).imp ?_
    rintro _ ⟨more, rfl, hmore⟩
    exact ⟨read :: more, by simp, .cons hread hmore⟩

/-- The lexemes of a program that derives from the grammar make that program, up to where it stands,
and every node of it has a place. -/
theorem DerivesProgram.parseLexemes {used : List Lexeme} {p : Program} (h : DerivesProgram used p)
    (hheight : heightIn p ≤ maxNesting) :
    ∃ q, Stampline.parseLexemes used = .ok q ∧ BlockMatches p q := by
  obtain ⟨q, i, hq, -, _, rfl, hread⟩ :=
    @DerivesProgram.reads used p [] ⟨used, .root⟩ used h hheight rfl (Nat.le_of_eq (List.length_map _))
  refine ⟨_, ?_, hread⟩
  have hprogram : program used ⟨used, .root⟩ = .ok (q, i) := hq
  show (program used ⟨used, .root⟩).map _ = _
  rw [hprogram]
  rfl

end Stampline
