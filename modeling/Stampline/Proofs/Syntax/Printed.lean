import Stampline.Proofs.Syntax.Forms
import Stampline.Proofs.Syntax.Grammar

/-!
# Written programs derive from the grammar

Lexemes whose tokens are those of a program that can be written derive that program, up to where it
stands, if the program nests no more deeply than there are levels.
-/

namespace Stampline

open Stampline.Parser

variable {b : Nat} {ls : List Lexeme}

/-! ## Splitting lexemes -/

theorem tokensOf_eq_cons {t : Token} {ts : List Token} (h : tokensOf ls = t :: ts) :
    ∃ span rest, ls = ⟨t, span⟩ :: rest ∧ tokensOf rest = ts := by
  obtain ⟨l, rest, rfl, rfl, hrest⟩ := List.map_eq_cons_iff.1 h
  exact ⟨l.span, rest, rfl, hrest⟩

theorem tokensOf_eq_append {ts us : List Token} (h : tokensOf ls = ts ++ us) :
    ∃ front rest, ls = front ++ rest ∧ tokensOf front = ts ∧ tokensOf rest = us :=
  List.map_eq_append_iff.1 h

theorem tokensOf_eq_singleton {t : Token} (h : tokensOf ls = [t]) : ∃ span, ls = [⟨t, span⟩] := by
  obtain ⟨span, rest, rfl, hrest⟩ := tokensOf_eq_cons h
  exact ⟨span, by rw [List.map_eq_nil_iff.1 hrest]⟩

/-! ## Expressions -/

/-- Lexemes with the tokens `toks` derive the expression in a place that asks for the strength `k`. -/
def Derivable (b : Nat) (k : Strength) (toks : List Token) (e : Expr) : Prop :=
  ∀ ⦃ls⦄, tokensOf ls = toks → ∃ e', DerivesExpr b k ls e' ∧ e'.erase = e.erase

theorem Derivable.loosen_to {toks : List Token} {e : Expr} {strength : Strength}
    (h : Derivable b strength toks e) : ∀ (steps : Nat) (least : Strength),
      least.rank + steps = strength.rank → Derivable b least toks e
  | 0, _, hrank => Strength.eq_of_rank hrank ▸ h
  | steps + 1, least, hrank => by
    intro ls hls
    have htighter := least.rank_tighter (k := strength) (by omega)
    obtain ⟨e', he', herase⟩ := h.loosen_to steps least.tighter (by omega) hls
    exact ⟨e', .loosen he', herase⟩

theorem Derivable.parens {toks : List Token} {e : Expr} (h : Derivable b .loosest toks e) :
    Derivable (b + 1) .atom (.symbol .leftParen :: toks ++ [.symbol .rightParen]) e := by
  intro ls hls
  obtain ⟨opening, rest, rfl, hrest⟩ := tokensOf_eq_cons hls
  obtain ⟨used, last, rfl, hused, hlast⟩ := tokensOf_eq_append hrest
  obtain ⟨closing, rfl⟩ := tokensOf_eq_singleton hlast
  obtain ⟨e', he', herase⟩ := h hused
  exact ⟨e', .parens he', herase⟩

/-- An expression derives in every place that can hold it. -/
theorem derivable_enclosed {e : Expr}
    (h : ∀ b, e.nesting ≤ b → Derivable b e.strength e.tokens e) (least : Strength)
    (hbudget : enclosure least e.strength + e.nesting ≤ b) :
    Derivable b least (enclosed least e.strength e.tokens) e := by
  unfold enclosure at hbudget
  unfold enclosed
  split
  · rename_i hlt
    rw [if_pos hlt] at hbudget
    obtain ⟨b, rfl⟩ : ∃ b', b = b' + 1 := ⟨b - 1, by omega⟩
    have hatom := ((h b (by omega)).loosen_to e.strength.rank .loosest
      (by simp [Strength.rank])).parens
    have hle : least.rank ≤ Strength.atom.rank := by cases least <;> decide
    exact hatom.loosen_to (Strength.atom.rank - least.rank) least (by omega)
  · rename_i hlt
    rw [if_neg hlt] at hbudget
    exact (h b (by omega)).loosen_to (e.strength.rank - least.rank) least (by omega)

/-- An expression derives where nothing is asked for. -/
theorem derivable_loosest {e : Expr}
    (h : ∀ b, e.nesting ≤ b → Derivable b e.strength e.tokens e) (hbudget : e.nesting ≤ b) :
    Derivable b .loosest e.tokens e :=
  (h b hbudget).loosen_to e.strength.rank .loosest (by simp [Strength.rank])

/-- Two operands with a symbol between them are derived on their own. -/
theorem derives_operands {k k' : Strength} {symbol : Symbol} {left right : Expr}
    (hleft : ∀ b, left.nesting ≤ b → Derivable b left.strength left.tokens left)
    (hright : ∀ b, right.nesting ≤ b → Derivable b right.strength right.tokens right)
    (hbudget : max (enclosure k left.strength + left.nesting)
      (enclosure k' right.strength + right.nesting) ≤ b)
    (hls : tokensOf ls = enclosed k left.strength left.tokens ++ .symbol symbol ::
      enclosed k' right.strength right.tokens) :
    ∃ front place back left' right', ls = front ++ ⟨.symbol symbol, place⟩ :: back ∧
      DerivesExpr b k front left' ∧ DerivesExpr b k' back right' ∧
        left'.erase = left.erase ∧ right'.erase = right.erase := by
  obtain ⟨front, rest, rfl, hfront, hrest⟩ := tokensOf_eq_append hls
  obtain ⟨place, back, rfl, hback⟩ := tokensOf_eq_cons hrest
  obtain ⟨left', hderives, herase⟩ :=
    derivable_enclosed hleft k (Nat.le_trans (Nat.le_max_left _ _) hbudget) hfront
  obtain ⟨right', hderives', herase'⟩ :=
    derivable_enclosed hright k' (Nat.le_trans (Nat.le_max_right _ _) hbudget) hback
  exact ⟨front, place, back, left', right', rfl, hderives, hderives', herase, herase'⟩

/-- What stands behind one of several parts that have commas between them. -/
def behind : List (List Token) → List Token
  | [] => []
  | parts => .symbol .comma :: separated parts

theorem separated_cons (part : List Token) (parts : List (List Token)) :
    separated (part :: parts) = part ++ behind parts := by
  cases parts <;> simp [separated, behind, List.intercalate]

/-- Lexemes with the tokens of these parts derive the arguments. -/
def ArgsDerivable (b : Nat) (parts : List (List Token)) (args : List Expr)
    (keywords : List Keyword) : Prop :=
  ∀ ⦃ls⦄, tokensOf ls = separated parts → ∃ args' keywords', DerivesArgs b ls args' keywords' ∧
    eraseExprs args' = eraseExprs args ∧ eraseKeywords keywords' = eraseKeywords keywords

theorem argsDerivable_nil : ArgsDerivable b [] [] [] := by
  intro ls hls
  obtain rfl := List.map_eq_nil_iff.1 hls
  exact ⟨[], [], .nil, rfl, rfl⟩

/-- What stands behind an argument derives further ones. -/
theorem ArgsDerivable.behind {parts : List (List Token)} {args : List Expr}
    {keywords : List Keyword} (h : ArgsDerivable b parts args keywords)
    (hnil : parts = [] → args = [] ∧ keywords = []) (hls : tokensOf ls = Stampline.behind parts) :
    ∃ args' keywords', DerivesMoreArgs b ls args' keywords' ∧
      eraseExprs args' = eraseExprs args ∧ eraseKeywords keywords' = eraseKeywords keywords := by
  cases parts with
  | nil =>
    obtain rfl := List.map_eq_nil_iff.1 hls
    obtain ⟨rfl, rfl⟩ := hnil rfl
    exact ⟨[], [], .nil, rfl, rfl⟩
  | cons part parts =>
    obtain ⟨span, rest, rfl, hrest⟩ := tokensOf_eq_cons hls
    obtain ⟨args', keywords', hargs, herase⟩ := h hrest
    exact ⟨args', keywords', .cons hargs, herase⟩

theorem names_of_erase {ks ks' : List Keyword} (h : eraseKeywords ks' = eraseKeywords ks) :
    ks'.map Keyword.name = ks.map Keyword.name := by
  have hnames := congrArg (List.map Keyword.name) h
  simpa [eraseKeywords_eq_map, Function.comp_def] using hnames

theorem argsDerivable_positional {parts : List (List Token)} {e : Expr} {args : List Expr}
    {keywords : List Keyword} (he : Derivable b .loosest e.tokens e)
    (h : ArgsDerivable b parts args keywords) (hnil : parts = [] → args = [] ∧ keywords = []) :
    ArgsDerivable b (e.tokens :: parts) (e :: args) keywords := by
  intro ls hls
  rw [separated_cons] at hls
  obtain ⟨used, rest, rfl, hused, hrest⟩ := tokensOf_eq_append hls
  obtain ⟨e', he', herase⟩ := he hused
  obtain ⟨args', keywords', hmore, hargs, hkeywords⟩ := h.behind hnil hrest
  refine ⟨e' :: args', keywords', .positional he' hmore, ?_, hkeywords⟩
  rw [eraseExprs, eraseExprs, herase, hargs]

theorem argsDerivable_keyword {parts : List (List Token)} {span : Option Span} {name : String}
    {e : Expr} {keywords : List Keyword} (he : Derivable b .loosest e.tokens e)
    (h : ArgsDerivable b parts [] keywords) (hnil : parts = [] → keywords = [])
    (hname : name ∉ keywords.map Keyword.name) :
    ArgsDerivable b ((.name name :: .symbol .assign :: e.tokens) :: parts) []
      (.mk span name e :: keywords) := by
  intro ls hls
  rw [separated_cons] at hls
  obtain ⟨used, rest, rfl, hused, hrest⟩ := tokensOf_eq_append hls
  obtain ⟨place, front, rfl, hfront⟩ := tokensOf_eq_cons hused
  obtain ⟨assign, value, rfl, hvalue⟩ := tokensOf_eq_cons hfront
  obtain ⟨e', he', herase⟩ := he hvalue
  obtain ⟨args', keywords', hmore, hargs, hkeywords⟩ :=
    h.behind (fun hparts => ⟨rfl, hnil hparts⟩) hrest
  obtain rfl : args' = [] := by simpa [eraseExprs_eq_map] using hargs
  refine ⟨[], _, .keyword he' rfl hmore ?_, rfl, ?_⟩
  · rwa [names_of_erase hkeywords]
  · simp only [eraseKeywords, Keyword.erase, herase, hkeywords]

mutual

/-- The tokens of an expression without negative numbers derive that expression. -/
theorem Expr.derivable : ∀ {e : Expr}, e.Formed (fun value => 0 ≤ value.toInt) →
    ∀ b, e.nesting ≤ b → Derivable b e.strength e.tokens e
  | .number _ value, h, b, _ => by
    intro ls hls
    have hstrength : (Expr.number none value).strength = .atom := if_neg (Int.not_lt.2 h)
    obtain ⟨span, rfl⟩ := tokensOf_eq_singleton hls
    refine ⟨.number (some span) value, ?_, rfl⟩
    exact hstrength ▸ .number
  | .text .., _, b, _ => by
    intro ls hls
    obtain ⟨span, rfl⟩ := tokensOf_eq_singleton hls
    exact ⟨_, .text, rfl⟩
  | .name .., _, b, _ => by
    intro ls hls
    obtain ⟨span, rfl⟩ := tokensOf_eq_singleton hls
    exact ⟨_, .name, rfl⟩
  | .member _ receiver id, h, b, hb => by
    intro ls hls
    obtain ⟨front, rest, rfl, hfront, hrest⟩ := tokensOf_eq_append hls
    obtain ⟨dot, last, rfl, hname⟩ := tokensOf_eq_cons hrest
    obtain ⟨place, rfl⟩ := tokensOf_eq_singleton hname
    obtain ⟨e', he', herase⟩ := derivable_enclosed (receiver.derivable h.1) .postfixed hb hfront
    exact ⟨_, .member he' rfl, by simp only [Expr.erase, herase]⟩
  | .call _ callee args keywords, h, b, hb => by
    intro ls hls
    simp only [Expr.nesting] at hb
    obtain ⟨b, rfl⟩ : ∃ b', b = b' + 1 := ⟨b - 1, by omega⟩
    rw [Expr.tokens, List.append_assoc] at hls
    obtain ⟨front, rest, rfl, hfront, hrest⟩ := tokensOf_eq_append hls
    obtain ⟨opening, rest, rfl, htail⟩ := tokensOf_eq_cons hrest
    obtain ⟨inside, last, rfl, hinside, hlast⟩ := tokensOf_eq_append htail
    obtain ⟨closing, rfl⟩ := tokensOf_eq_singleton hlast
    obtain ⟨e', he', herase⟩ := derivable_enclosed (callee.derivable h.1) .postfixed
      (Nat.le_trans (Nat.le_max_left _ _) hb) hfront
    have hinner : max (nestingOf args) (nestingBy keywords) ≤ b := by omega
    obtain ⟨args', keywords', hall, hargs, hkeywords⟩ :=
      exprs_derivable h.2.1 (Nat.le_trans (Nat.le_max_left _ _) hinner)
        (keywords_derivable h.2.2.1 h.2.2.2 (Nat.le_trans (Nat.le_max_right _ _) hinner)) hinside
    exact ⟨_, .call he' hall rfl, by simp only [Expr.erase, herase, hargs, hkeywords]⟩
  | .binary _ op left right, h, b, hb => by
    intro ls hls
    obtain ⟨front, place, back, l, r, rfl, hl, hr, hleft, hright⟩ :=
      derives_operands (left.derivable h.1) (right.derivable h.2) hb hls
    exact ⟨_, .binary hl hr, by simp only [Expr.erase, hleft, hright]⟩
  | .negate _ operand, h, b, hb => by
    intro ls hls
    simp only [Expr.nesting] at hb
    obtain ⟨b, rfl⟩ : ∃ b', b = b' + 1 := ⟨b - 1, by omega⟩
    obtain ⟨place, rest, rfl, hrest⟩ := tokensOf_eq_cons hls
    obtain ⟨e', he', herase⟩ :=
      derivable_enclosed (operand.derivable h) .sign (Nat.le_of_succ_le_succ hb) hrest
    exact ⟨_, .negate he' rfl, by simp only [Expr.erase, herase]⟩
  | .compare _ op left right, h, b, hb => by
    intro ls hls
    obtain ⟨front, place, back, l, r, rfl, hl, hr, hleft, hright⟩ :=
      derives_operands (left.derivable h.1) (right.derivable h.2) hb hls
    exact ⟨_, .compare hl hr, by simp only [Expr.erase, hleft, hright]⟩

theorem exprs_derivable {keywords : List Keyword} : ∀ {b : Nat} {es : List Expr},
    ExprsFormed (fun value => 0 ≤ value.toInt) es → nestingOf es ≤ b →
    ArgsDerivable b (keywordTokens keywords) [] keywords →
    ArgsDerivable b (argTokens es ++ keywordTokens keywords) es keywords
  | _, [], _, _, h => h
  | _, e :: es, h, hb, hkeywords => by
    simp only [nestingOf] at hb
    refine argsDerivable_positional (derivable_loosest (e.derivable h.1) (by omega))
      (exprs_derivable h.2 (by omega) hkeywords) fun hnil => ?_
    obtain ⟨hes, hks⟩ := List.append_eq_nil_iff.1 hnil
    constructor
    · cases es with
      | nil => rfl
      | cons => cases hes
    · cases keywords with
      | nil => rfl
      | cons k => cases k; cases hks

theorem keywords_derivable : ∀ {b : Nat} {ks : List Keyword},
    KeywordsFormed (fun value => 0 ≤ value.toInt) ks → (ks.map Keyword.name).Nodup →
    nestingBy ks ≤ b → ArgsDerivable b (keywordTokens ks) [] ks
  | _, [], _, _, _ => argsDerivable_nil
  | _, .mk _ _ value :: ks, h, hnodup, hb => by
    simp only [nestingBy] at hb
    obtain ⟨hname, hnodup⟩ := List.nodup_cons.1 hnodup
    refine argsDerivable_keyword (derivable_loosest (value.derivable h.2.1) (by omega))
      (keywords_derivable h.2.2 hnodup (by omega)) (fun hnil => ?_) hname
    cases ks with
    | nil => rfl
    | cons k => cases k; cases hnil

end

/-! ## Statements -/

/-- Lexemes with the tokens of parameters derive parameters of the same names. -/
theorem params_derivable : ∀ {params : List Param} {ls : List Lexeme},
    (params.map Param.name).Nodup → tokensOf ls = paramTokens params →
    ∃ params', DerivesParams ls params' ∧ params'.map Param.erase = params.map Param.erase
  | [], ls, _, hls => by
    obtain rfl := List.map_eq_nil_iff.1 hls
    exact ⟨[], .nil, rfl⟩
  | p :: ps, ls, hnodup, hls => by
    obtain ⟨hname, hnodup⟩ := List.nodup_cons.1 hnodup
    rw [paramTokens, List.map_cons, separated_cons] at hls
    obtain ⟨place, rest, rfl, hrest⟩ := tokensOf_eq_cons hls
    have hmore : ∃ ps', DerivesMoreParams rest ps' ∧ ps'.map Param.erase = ps.map Param.erase := by
      cases ps with
      | nil =>
        obtain rfl := List.map_eq_nil_iff.1 hrest
        exact ⟨[], .nil, rfl⟩
      | cons q qs =>
        obtain ⟨comma, more, rfl, hmore⟩ := tokensOf_eq_cons hrest
        obtain ⟨ps', hps', herase⟩ := params_derivable hnodup hmore
        exact ⟨ps', .cons hps', herase⟩
    obtain ⟨ps', hps', herase⟩ := hmore
    have hnames : ps'.map Param.name = ps.map Param.name := by
      have hnames := congrArg (List.map Param.name) herase
      simpa [Function.comp_def, Param.erase] using hnames
    exact ⟨⟨p.name, place⟩ :: ps', .cons hps' (hnames ▸ hname), by simp [herase, Param.erase]⟩

/-- Lexemes with these tokens derive the block, up to where it stands. -/
def SuiteDerivable (b : Nat) (toks : List Token) (block : List Stmt) : Prop :=
  ∀ ⦃ls⦄, tokensOf ls = toks → ∃ block', DerivesSuite b ls block' ∧
    eraseBlock block' = eraseBlock block

/-- An indented block is derived behind its colon. -/
theorem suiteDerivable_indented {block : List Stmt} (hne : block ≠ [])
    (h : ∀ ls, tokensOf ls = blockTokens block → ∃ block', DerivesBlock b ls block' ∧
      eraseBlock block' = eraseBlock block) :
    SuiteDerivable b (.newline :: .indent :: (blockTokens block ++ [.dedent])) block := by
  intro ls hls
  obtain ⟨newline, rest, rfl, hrest⟩ := tokensOf_eq_cons hls
  obtain ⟨indent, more, rfl, hmore⟩ := tokensOf_eq_cons hrest
  obtain ⟨inside, last, rfl, hinside, hlast⟩ := tokensOf_eq_append hmore
  obtain ⟨dedent, rfl⟩ := tokensOf_eq_singleton hlast
  obtain ⟨block', hblock, herase⟩ := h inside hinside
  refine ⟨block', .block hblock ?_, herase⟩
  rintro rfl
  cases block with
  | nil => exact hne rfl
  | cons => cases herase

/-- A conditional is derived behind the word that it begins with. -/
theorem derives_branch {word : Reserved} (span : Option Span) {test : Expr}
    {body orelse : List Stmt} (htest : Derivable (b + 1) .loosest test.tokens test)
    (hbody : SuiteDerivable b (.newline :: .indent :: (blockTokens body ++ [.dedent])) body)
    (horelse : ∀ ls, tokensOf ls = orelseTokens orelse → ∃ orelse', DerivesElse (b + 1) ls orelse' ∧
      eraseBlock orelse' = eraseBlock orelse)
    (hls : tokensOf ls = .reserved word :: test.tokens ++ indented (blockTokens body) ++
      orelseTokens orelse) :
    ∃ s, DerivesBranch (b + 1) word ls s ∧ s.erase = (Stmt.branch span test body orelse).erase := by
  rw [List.append_assoc] at hls
  obtain ⟨place, rest, rfl, hrest⟩ := tokensOf_eq_cons hls
  obtain ⟨front, back, rfl, hfront, hback⟩ := tokensOf_eq_append hrest
  obtain ⟨colon, suite, rfl, hsuite⟩ := tokensOf_eq_cons hback
  obtain ⟨held, last, rfl, hheld, hlast⟩ := tokensOf_eq_append hsuite
  obtain ⟨test', htest', hteste⟩ := htest hfront
  obtain ⟨body', hbody', hbodye⟩ := hbody hheld
  obtain ⟨orelse', horelse', horelsee⟩ := horelse last hlast
  exact ⟨_, .mk htest' hbody' horelse' rfl, by simp only [Stmt.erase, hteste, hbodye, horelsee]⟩

theorem derives_name {span : Span} (id : String) :
    DerivesExpr b .loosest [⟨.name id, span⟩] (.name span id) :=
  .loosen (.loosen (.loosen (.loosen (.loosen (.loosen .name)))))

theorem Expr.Formed.derivable_loosest {e : Expr} (h : e.Formed (fun value => 0 ≤ value.toInt))
    (hb : e.nesting ≤ b) : Derivable b .loosest e.tokens e :=
  Stampline.derivable_loosest (e.derivable h) hb

/-- The tokens of statements without negative numbers derive those statements. -/
theorem derivable_statements : ByStatement
    (fun s => s.Formed (fun value => 0 ≤ value.toInt) → ∀ b, s.nesting ≤ b → ∀ ls,
      tokensOf ls = s.tokens → ∃ s', DerivesStmt b ls s' ∧ s'.erase = s.erase)
    (fun block => BlockFormed (fun value => 0 ≤ value.toInt) block → ∀ b, nestingIn block ≤ b →
      ∀ ls, tokensOf ls = blockTokens block → ∃ block', DerivesBlock b ls block' ∧
        eraseBlock block' = eraseBlock block)
    (fun orelse => BlockFormed (fun value => 0 ≤ value.toInt) orelse → ∀ b,
      (if orelse.isEmpty then 0 else nestingIn orelse + 1) ≤ b → ∀ ls,
        tokensOf ls = orelseTokens orelse → ∃ orelse', DerivesElse b ls orelse' ∧
          eraseBlock orelse' = eraseBlock orelse) where
  define span name params body hbody h b hb ls hls := by
    simp only [Stmt.nesting] at hb
    obtain ⟨b, rfl⟩ : ∃ b', b = b' + 1 := ⟨b - 1, by omega⟩
    obtain ⟨front, suite, rfl, hfront, hsuite⟩ := tokensOf_eq_append hls
    obtain ⟨define, rest, rfl, hrest⟩ := tokensOf_eq_cons hfront
    obtain ⟨place, rest, rfl, htail⟩ := tokensOf_eq_cons hrest
    obtain ⟨opening, inside, rfl, hinside⟩ := tokensOf_eq_cons htail
    obtain ⟨closing, back, rfl, hback⟩ := tokensOf_eq_cons hsuite
    obtain ⟨colon, held, rfl, hheld⟩ := tokensOf_eq_cons hback
    obtain ⟨params', hparams', hparamse⟩ := params_derivable h.2.2.1 hinside
    obtain ⟨body', hbody', hbodye⟩ := suiteDerivable_indented h.2.2.2.1
      (hbody h.2.2.2.2 b (by omega)) hheld
    exact ⟨_, .define hparams' hbody' rfl, by simp only [Stmt.erase, hparamse, hbodye]⟩
  giveZero span h b hb ls hls := by
    obtain ⟨place, rest, rfl, hrest⟩ := tokensOf_eq_cons hls
    obtain ⟨newline, rfl⟩ := tokensOf_eq_singleton hrest
    exact ⟨_, .line .giveZero, rfl⟩
  give span value h b hb ls hls := by
    obtain ⟨front, last, rfl, hfront, hlast⟩ := tokensOf_eq_append hls
    obtain ⟨place, rest, rfl, hrest⟩ := tokensOf_eq_cons hfront
    obtain ⟨newline, rfl⟩ := tokensOf_eq_singleton hlast
    obtain ⟨e, he, herase⟩ := h.derivable_loosest hb hrest
    exact ⟨_, .line (.give he rfl), by simp only [Stmt.erase, herase]⟩
  assign span target value h b hb ls hls := by
    obtain ⟨front, last, rfl, hfront, hlast⟩ := tokensOf_eq_append hls
    obtain ⟨place, rest, rfl, hrest⟩ := tokensOf_eq_cons hfront
    obtain ⟨assign, back, rfl, hback⟩ := tokensOf_eq_cons hrest
    obtain ⟨newline, rfl⟩ := tokensOf_eq_singleton hlast
    obtain ⟨e, he, herase⟩ := h.2.derivable_loosest hb hback
    exact ⟨_, .line (.assign (derives_name target) he rfl), by simp only [Stmt.erase, herase]⟩
  eval span value h b hb ls hls := by
    obtain ⟨front, last, rfl, hfront, hlast⟩ := tokensOf_eq_append hls
    obtain ⟨newline, rfl⟩ := tokensOf_eq_singleton hlast
    obtain ⟨e, he, herase⟩ := h.derivable_loosest hb hfront
    exact ⟨_, .line (.eval he), by simp only [Stmt.erase, herase]⟩
  branch span test body orelse hbody horelse h b hb ls hls := by
    simp only [Stmt.nesting] at hb
    obtain ⟨b, rfl⟩ : ∃ b', b = b' + 1 := ⟨b - 1, by omega⟩
    obtain ⟨htest, hne, hbodyFormed, horelseFormed⟩ := h
    obtain ⟨s, hs, herase⟩ := derives_branch span (htest.derivable_loosest (by omega))
      (suiteDerivable_indented hne (hbody hbodyFormed b (by omega)))
      (horelse horelseFormed (b + 1) (by omega)) hls
    exact ⟨s, .branch hs, herase⟩
  loop span test body hbody h b hb ls hls := by
    simp only [Stmt.nesting] at hb
    obtain ⟨b, rfl⟩ : ∃ b', b = b' + 1 := ⟨b - 1, by omega⟩
    obtain ⟨front, suite, rfl, hfront, hsuite⟩ := tokensOf_eq_append hls
    obtain ⟨word, back, rfl, hback⟩ := tokensOf_eq_cons hfront
    obtain ⟨colon, held, rfl, hheld⟩ := tokensOf_eq_cons hsuite
    obtain ⟨test', htest', hteste⟩ := h.1.derivable_loosest (Nat.le_trans (Nat.le_max_left _ _) hb) hback
    obtain ⟨body', hbody', hbodye⟩ := suiteDerivable_indented h.2.1 (hbody h.2.2 b (by omega)) hheld
    exact ⟨_, .loop htest' hbody' rfl, by simp only [Stmt.erase, hteste, hbodye]⟩
  pass span h b hb ls hls := by
    obtain ⟨place, rest, rfl, hrest⟩ := tokensOf_eq_cons hls
    obtain ⟨newline, rfl⟩ := tokensOf_eq_singleton hrest
    exact ⟨_, .line .pass, rfl⟩
  nil h b hb ls hls := by
    obtain rfl := List.map_eq_nil_iff.1 hls
    exact ⟨[], .nil, rfl⟩
  cons s ss hs hss h b hb ls hls := by
    simp only [nestingIn] at hb
    obtain ⟨front, rest, rfl, hfront, hrest⟩ := tokensOf_eq_append hls
    obtain ⟨s', hs', herase⟩ := hs h.1 b (by omega) front hfront
    obtain ⟨ss', hss', herases⟩ := hss h.2 b (by omega) rest hrest
    exact ⟨s' :: ss', .cons hs' hss', by simp only [eraseBlock, herase, herases]⟩
  absent h b hb ls hls := by
    obtain rfl := List.map_eq_nil_iff.1 hls
    exact ⟨[], .absent, rfl⟩
  link span test body orelse hbody horelse h b hb ls hls := by
    replace hb : nestingIn [Stmt.branch span test body orelse] + 1 ≤ b := hb
    simp only [nestingIn, Stmt.nesting] at hb
    obtain ⟨b, rfl⟩ : ∃ b', b = b' + 2 := ⟨b - 2, by omega⟩
    obtain ⟨⟨htest, hne, hbodyFormed, horelseFormed⟩, -⟩ := h
    obtain ⟨s, hs, herase⟩ := derives_branch span (htest.derivable_loosest (by omega))
      (suiteDerivable_indented hne (hbody hbodyFormed b (by omega)))
      (horelse horelseFormed (b + 1) (by omega)) hls
    exact ⟨[s], .link hs, by simp only [eraseBlock, herase]⟩
  otherwise block hne hlink hblock h b hb ls hls := by
    have hempty : block.isEmpty = false := by simpa using hne
    rw [hempty] at hb
    replace hb : nestingIn block + 1 ≤ b := hb
    obtain ⟨b, rfl⟩ : ∃ b', b = b' + 1 := ⟨b - 1, by omega⟩
    rw [orelseTokens_of_not_isLink hne hlink] at hls
    obtain ⟨word, rest, rfl, hrest⟩ := tokensOf_eq_cons hls
    obtain ⟨colon, held, rfl, hheld⟩ := tokensOf_eq_cons hrest
    obtain ⟨block', hblock', herase⟩ :=
      suiteDerivable_indented hne (hblock h b (by omega)) hheld
    exact ⟨block', .otherwise hblock', herase⟩

/-! ## Programs -/

theorem derives_block {block : List Stmt} (h : DerivesBlock maxNesting ls block) (span : Span) :
    DerivesProgram (ls ++ [⟨.endOfInput, span⟩]) block := by
  induction block generalizing ls with
  | nil =>
    cases h
    exact .done
  | cons s ss ih =>
    cases h with
    | cons hs hrest =>
      rw [List.append_assoc]
      exact .stmt hs (ih hrest)

/-- The tokens of a program without negative numbers derive that program. -/
theorem Program.derivable {p : Program} (h : BlockFormed (fun value => 0 ≤ value.toInt) p)
    (hnesting : p.nesting ≤ maxNesting) (hls : tokensOf ls = p.tokens) :
    ∃ q, DerivesProgram ls q ∧ q.erase = p.erase := by
  obtain ⟨front, last, rfl, hfront, hlast⟩ := tokensOf_eq_append hls
  obtain ⟨span, rfl⟩ := tokensOf_eq_singleton hlast
  obtain ⟨q, hq, herase⟩ := derivable_statements.block p h maxNesting hnesting front hfront
  exact ⟨q, derives_block hq span, herase⟩

end Stampline
