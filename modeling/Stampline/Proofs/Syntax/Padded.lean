import Stampline.Pipeline
import Stampline.Proofs.Syntax.Respects

/-!
# Padded texts are the same programs

Statements are read alike, wherever their lexemes stand. Together with what the scanner makes of a
padded text this says that blanks, comments, added lines and line breaks of two characters never
change a program (`parse_padded`).
-/

namespace Stampline

variable {k : Correspondence}

namespace Parser

variable {α : Type}

/-! ## Statements of one line -/

theorem erase_eq_name {e : Expr} {id : String} :
    e.erase = .name none id ↔ ∃ span, e = .name span id := by
  cases e <;> simp [Expr.erase]

theorem respects_simple {expr : Parser Operand} (hexpr : Respects k (Operand.Alike k) expr expr)
    (hbegins : BeginsVisible expr) :
    Respects k (AlikeBut Stmt.erase k) (simple expr) (simple expr) := by
  refine Respects.peek_bind fun start start' hstart => ?_
  rw [hstart.token]
  split
  · rename_i hpass
    have hspan := hstart.visible (by rw [hpass]; rfl)
    exact (Respects.take.bind fun _ _ _ => .pure
      ⟨rfl, fun hmoved => by rw [hspan.same hmoved]⟩).at start
  · rename_i hgive
    have hspan := hstart.visible (by rw [hgive]; rfl)
    refine (Respects.take.bind fun _ _ _ => Respects.peek.bind fun next next' hnext => ?_).at start
    rw [hnext.token]
    split
    · exact Respects.lastSpan.bind fun last last' hlast => .pure
        ⟨rfl, fun hmoved => by rw [hspan.same hmoved, hlast hmoved]⟩
    · exact hexpr.bind fun value value' hvalue => Respects.lastSpan.bind fun last last' hlast => .pure
        ⟨by simp only [Stmt.erase, hvalue.expr.erased], fun hmoved => by
          rw [hspan.same hmoved, hlast hmoved, hvalue.expr.same hmoved]⟩
  · -- The statement begins where its first expression does.
    refine .bind hexpr hbegins fun hvisible left left' hleft => ?_
    have hspan := hstart.visible hvisible
    refine (Respects.eat _).bind fun found found' hfound => ?_
    rw [hfound]
    split
    · split
      · rename_i span target htarget
        obtain ⟨span', htarget'⟩ := erase_eq_name.1
          (hleft.expr.erased.trans (erase_eq_name.2 ⟨span, htarget⟩))
        rw [htarget']
        exact hexpr.bind fun value value' hvalue => Respects.lastSpan.bind fun last last' hlast =>
          .pure ⟨by simp only [Stmt.erase, hvalue.expr.erased], fun hmoved => by
            rw [hspan.same hmoved, hlast hmoved, hvalue.expr.same hmoved]⟩
      · rename_i hother
        split
        · rename_i span' target htarget'
          obtain ⟨span, htarget⟩ := erase_eq_name.1
            (hleft.expr.erased.symm.trans (erase_eq_name.2 ⟨span', htarget'⟩))
          exact absurd htarget (hother span target)
        · exact .failAt hspan.first _
    · exact .pure ⟨by simp only [Stmt.erase, hleft.expr.erased], fun hmoved => by
        rw [hleft.expr.same hmoved]⟩

theorem respects_line {expr : Parser Operand} (hexpr : Respects k (Operand.Alike k) expr expr)
    (hbegins : BeginsVisible expr) :
    Respects k (AlikeBut Stmt.erase k) (line expr) (line expr) :=
  (respects_simple hexpr hbegins).bind fun _ _ hs => (Respects.expect _).bind fun _ _ _ => .pure hs

/-! ## Parameters -/

theorem beginsVisible_expectName : BeginsVisible expectName := by
  refine .peek_bind fun next s id s' h _ => ?_
  cases htoken : next.token with
  | name id => rfl
  | _ =>
    simp only [htoken] at h
    cases h

/-- The names of parameters do not depend on where they stand. -/
theorem any_param_eq {ps ps' : List Param} (h : ps'.map Param.erase = ps.map Param.erase)
    (id : String) : ps'.any (·.name == id) = ps.any (·.name == id) := by
  have hmap : ∀ ps : List Param, ps.any (·.name == id) = (ps.map Param.erase).any (·.name == id) := by
    intro ps
    rw [List.any_map]
    rfl
  rw [hmap ps', hmap ps, h]

theorem respects_paramsFrom {bound bound' : List Lexeme}
    (hbound : List.Forall₂ (Lexeme.Alike k) bound bound') : ∀ {before before' : List Param},
      AlikeBut (List.map Param.erase) k before before' →
        Respects k (AlikeBut (List.map Param.erase) k) (paramsFrom bound before)
          (paramsFrom bound' before') := by
  induction hbound with
  | nil => exact fun hbefore => .pure hbefore
  | cons _ _ ih =>
    intro before before' hbefore
    refine Respects.peek_bind fun start start' hstart => ?_
    rw [hstart.token]
    split
    · exact (Respects.pure hbefore).at start
    · refine .bind .expectName beginsVisible_expectName fun hvisible id id' hid => ?_
      have hspan := hstart.visible hvisible
      subst hid
      rw [any_param_eq hbefore.erased]
      split
      · exact (Respects.failAt (R := fun _ _ => False) hspan.first _).bind fun _ _ h => h.elim
      · have hnow : AlikeBut (List.map Param.erase) k (before ++ [⟨id', start.span⟩])
            (before' ++ [⟨id', start'.span⟩]) :=
          ⟨by simp only [List.map_append, hbefore.erased, List.map_cons, List.map_nil, Param.erase],
            fun hmoved => by rw [hbefore.same hmoved, hspan.same hmoved]⟩
        refine (Respects.eat _).bind fun more more' hmore => ?_
        rw [hmore]
        split
        · exact ih hnow
        · exact .pure hnow

/-! ## Statements with blocks -/

section Blocks

variable {block : Option (Parser (List Stmt))} {link : Option (Parser Stmt)} {expr : Parser Operand}
  (hblock : ∀ p ∈ block, Respects k (BlockAlike k) p p)

include hblock

theorem respects_definition :
    RespectsVisible k (AlikeBut Stmt.erase k) (definition block) (definition block) := by
  refine .take_bind fun start start' hspan => Respects.expectName.bind fun name name' hname =>
    (Respects.expect _).bind fun _ _ _ => Respects.remaining.bind fun _ _ hbound =>
    (respects_paramsFrom hbound (.refl [])).bind fun params params' hparams =>
    (Respects.expect _).bind fun _ _ _ => (Respects.expect _).bind fun _ _ _ =>
    (Respects.nested hblock).bind fun body body' hbody =>
    Respects.lastSpan.bind fun last last' hlast => .pure ⟨?_, fun hmoved => ?_⟩
  · simp only [Stmt.erase, hname, hparams.erased, hbody.erased]
  · rw [hspan.same hmoved, hlast hmoved, hname, hparams.same hmoved, hbody.same hmoved]

theorem respects_repetition (hexpr : Respects k (Operand.Alike k) expr expr) :
    RespectsVisible k (AlikeBut Stmt.erase k) (repetition expr block) (repetition expr block) := by
  refine .take_bind fun start start' hspan => hexpr.bind fun test test' htest =>
    (Respects.expect _).bind fun _ _ _ => (Respects.nested hblock).bind fun body body' hbody =>
    Respects.lastSpan.bind fun last last' hlast => .pure ⟨?_, fun hmoved => ?_⟩
  · simp only [Stmt.erase, htest.expr.erased, hbody.erased]
  · rw [hspan.same hmoved, hlast hmoved, htest.expr.same hmoved, hbody.same hmoved]

variable (hlink : ∀ p ∈ link, RespectsVisible k (AlikeBut Stmt.erase k) p p)

include hlink

theorem respects_alternative :
    Respects k (BlockAlike k) (alternative block link) (alternative block link) := by
  refine Respects.peek_bind fun next next' hnext => ?_
  rw [hnext.token]
  split
  · rename_i helse
    have hnested : RespectsAt next k (AlikeBut Stmt.erase k) (nested link) (nested link) := by
      cases link with
      | none => exact (Respects.fail _).at next
      | some p => exact (hlink p rfl).at (by rw [helse]; rfl)
    rw [← bind_pure_comp]
    exact fun s s' hs hhead => (hnested s s' hs hhead).bind fun orelse t orelse' t' _ horelse ht =>
      .ok ⟨by simp only [eraseBlock, horelse.erased], fun hmoved => by rw [horelse.same hmoved]⟩ ht
  · exact (Respects.take.bind fun _ _ _ => (Respects.expect _).bind fun _ _ _ =>
      Respects.nested hblock).at next
  · exact (Respects.pure (.refl [])).at next

theorem respects_conditionalOf (hexpr : Respects k (Operand.Alike k) expr expr) :
    RespectsVisible k (AlikeBut Stmt.erase k) (conditionalOf expr block link)
      (conditionalOf expr block link) := by
  refine .take_bind fun start start' hspan => hexpr.bind fun test test' htest =>
    (Respects.expect _).bind fun _ _ _ => (Respects.nested hblock).bind fun body body' hbody =>
    (respects_alternative hblock hlink).bind fun orelse orelse' horelse =>
    Respects.lastSpan.bind fun last last' hlast => .pure ⟨?_, fun hmoved => ?_⟩
  · simp only [Stmt.erase, htest.expr.erased, hbody.erased, horelse.erased]
  · rw [hspan.same hmoved, hlast hmoved, htest.expr.same hmoved, hbody.same hmoved,
      horelse.same hmoved]

theorem respects_statementOf (hexpr : Respects k (Operand.Alike k) expr expr)
    (hbegins : BeginsVisible expr) :
    Respects k (AlikeBut Stmt.erase k) (statementOf expr block link) (statementOf expr block link) := by
  refine Respects.peek_bind fun next next' hnext => ?_
  rw [hnext.token]
  split
  · rename_i hdefine
    exact (respects_definition hblock).at (by rw [hdefine]; rfl)
  · rename_i hwhether
    exact (respects_conditionalOf hblock hlink hexpr).at (by rw [hwhether]; rfl)
  · rename_i hrepeating
    exact (respects_repetition hblock hexpr).at (by rw [hrepeating]; rfl)
  · exact (respects_line hexpr hbegins).at next

end Blocks

/-! ## Blocks -/

theorem alike_reverse {before before' : List Stmt} (h : BlockAlike k before before') :
    BlockAlike k before.reverse before'.reverse := by
  refine ⟨?_, fun hmoved => congrArg _ (h.same hmoved)⟩
  have := h.erased
  simp only [eraseBlock_eq_map, List.map_reverse] at this ⊢
  rw [this]

theorem alike_cons {s s' : Stmt} {before before' : List Stmt} (hs : AlikeBut Stmt.erase k s s')
    (h : BlockAlike k before before') : BlockAlike k (s :: before) (s' :: before') :=
  ⟨by simp only [eraseBlock, hs.erased, h.erased], fun hmoved => by rw [hs.same hmoved, h.same hmoved]⟩

theorem respects_statementsFrom {statement : Parser Stmt}
    (hstatement : Respects k (AlikeBut Stmt.erase k) statement statement) {bound bound' : List Lexeme}
    (hbound : List.Forall₂ (Lexeme.Alike k) bound bound') : ∀ {before before' : List Stmt},
      BlockAlike k before before' → Respects k (BlockAlike k) (statementsFrom statement bound before)
        (statementsFrom statement bound' before') := by
  induction hbound with
  | nil => exact fun hbefore => .pure (alike_reverse hbefore)
  | cons _ _ ih =>
    intro before before' hbefore
    refine (Respects.eat _).bind fun found found' hfound => ?_
    rw [hfound]
    split
    · exact .pure (alike_reverse hbefore)
    · exact hstatement.bind fun s s' hs => ih (alike_cons hs hbefore)

theorem respects_block {budget : Nat}
    (hstatement : Respects k (AlikeBut Stmt.erase k) (statement budget) (statement budget)) :
    Respects k (BlockAlike k) (block budget) (block budget) := by
  rw [block_eq]
  refine (Respects.eat _).bind fun found found' hfound => ?_
  rw [hfound]
  split
  · exact (Respects.expect _).bind fun _ _ _ => Respects.remaining.bind fun _ _ hbound =>
      respects_statementsFrom hstatement hbound (.refl [])
  · exact (respects_line (respects_expression budget).1 (beginsVisible_expression budget)).bind
      fun s s' hs => .pure (alike_cons hs (.refl []))

/-- Every block and every conditional is read alike. -/
theorem respects_nested : ∀ budget : Nat, (∀ p ∈ bodies budget, Respects k (BlockAlike k) p p) ∧
    ∀ p ∈ links budget, RespectsVisible k (AlikeBut Stmt.erase k) p p
  | 0 => ⟨by simp [bodies], by simp [links]⟩
  | b + 1 => by
    obtain ⟨hbody, hlink⟩ := respects_nested b
    refine ⟨fun p hp => ?_, fun p hp => ?_⟩
    · obtain rfl := Option.some.inj hp
      refine respects_block ?_
      rw [statement_eq]
      exact respects_statementOf hbody hlink (respects_expression b).1 (beginsVisible_expression b)
    · obtain rfl := Option.some.inj hp
      rw [conditional_eq]
      exact respects_conditionalOf hbody hlink (respects_expression b).1

theorem respects_statement (budget : Nat) :
    Respects k (AlikeBut Stmt.erase k) (statement budget) (statement budget) := by
  obtain ⟨hbody, hlink⟩ := respects_nested budget
  rw [statement_eq]
  exact respects_statementOf hbody hlink (respects_expression budget).1
    (beginsVisible_expression budget)

theorem respects_programFrom {bound bound' : List Lexeme}
    (hbound : List.Forall₂ (Lexeme.Alike k) bound bound') : ∀ {before before' : List Stmt},
      BlockAlike k before before' →
        Respects k (BlockAlike k) (programFrom (statement maxNesting) bound before)
          (programFrom (statement maxNesting) bound' before') := by
  induction hbound with
  | nil => exact fun hbefore => .pure (alike_reverse hbefore)
  | cons _ _ ih =>
    intro before before' hbefore
    refine Respects.peek.bind fun next next' hnext => ?_
    rw [hnext.token]
    split
    · exact .pure (alike_reverse hbefore)
    · refine (Respects.eat _).bind fun found found' hfound => ?_
      rw [hfound]
      split
      · exact ih hbefore
      · exact (respects_statement maxNesting).bind fun s s' hs => ih (alike_cons hs hbefore)

end Parser

/-! ## Whole texts -/

/-- Lexemes that have the same place in two lists begin at positions that correspond. -/
def beginnings (ls ls' : List Lexeme) (moved : Bool) : Correspondence where
  At place place' := ∃ l l', (l, l') ∈ ls.zip ls' ∧ place = l.span.first ∧ place' = l'.span.first
  moved := moved

theorem alike_of_beside {lines : Bool} {ls ls' : List Lexeme}
    (h : List.Forall₂ (Lexeme.Beside lines) ls ls') :
    List.Forall₂ (Lexeme.Alike (beginnings ls ls' lines)) ls ls' := by
  obtain ⟨hlength, hzip⟩ := List.forall₂_iff_zip.1 h
  exact List.forall₂_iff_zip.2 ⟨hlength, fun hmem =>
    ⟨(hzip hmem).token, ⟨_, _, hmem, rfl, rfl⟩, (hzip hmem).span⟩⟩

/-- Two texts with the lexemes `ls` and `ls'` are read in the same way: as programs that are the same
up to places, or with the same fault at lexemes that have the same place in the lists. -/
inductive SameReading (ls ls' : List Lexeme) : Except Error Program → Except Error Program → Prop where
  | ok {p p'} (h : p'.erase = p.erase) : SameReading ls ls' (.ok p) (.ok p')
  | error {e e' l l'} (hfault : e'.fault = e.fault) (hmem : (l, l') ∈ ls.zip ls')
      (h : e.position = l.span.first) (h' : e'.position = l'.span.first) :
      SameReading ls ls' (.error (.parse e)) (.error (.parse e'))

/-- Texts whose tokens are the same are read in the same way, places included if those of visible
tokens are the same. -/
theorem sameReading_of_beside {lines : Bool} {source source' : String} {ls ls' : List Lexeme}
    (hscan : scan source = .ok ls) (hscan' : scan source' = .ok ls')
    (h : List.Forall₂ (Lexeme.Beside lines) ls ls') :
    SameReading ls ls' (Program.parse source) (Program.parse source') ∧
      (lines = false → ∀ p, Program.parse source = .ok p → Program.parse source' = .ok p) := by
  have halike := alike_of_beside h
  obtain ⟨front, span, hls, -⟩ := ends_scan hscan
  have hagree : Parser.Agree _ _ (Parser.program ls ⟨ls, .root⟩) (Parser.program ls' ⟨ls', .root⟩) :=
    Parser.respects_programFrom halike (.refl []) ⟨ls, .root⟩ ⟨ls', .root⟩
      ⟨halike, ⟨⟨.endOfInput, span⟩, by simp [hls], rfl⟩, fun _ => rfl⟩
  have hparse : ∀ {source ls}, scan source = .ok ls → Program.parse source =
      ((Parser.program ls ⟨ls, .root⟩).map (·.1)).mapError .parse := by
    intro source ls hscan
    unfold Program.parse parseLexemes StateT.run
    rw [hscan]
    dsimp only
    cases Parser.program ls ⟨ls, .root⟩ <;> rfl
  rw [hparse hscan, hparse hscan']
  generalize Parser.program ls ⟨ls, .root⟩ = r at hagree
  generalize Parser.program ls' ⟨ls', .root⟩ = r' at hagree
  cases hagree with
  | ok ha hs =>
    exact ⟨.ok ha.erased, fun hlines p hp => hp ▸ congrArg Except.ok (ha.same hlines)⟩
  | error hfault hposition =>
    obtain ⟨l, l', hmem, hl, hl'⟩ := hposition
    exact ⟨.error hfault hmem hl hl', fun _ p hp => by cases hp⟩

/-- Padding does not change what a text is read as, and neither do carriage returns in front of line
breaks, which do not even change where nodes stand. -/
theorem Program.parse_padded {source : String} {ls : List Lexeme} (hscan : scan source = .ok ls) :
    (∀ source', Padded true source.toList source'.toList → ∃ ls', scan source' = .ok ls' ∧
      ls'.map (·.token) = ls.map (·.token) ∧
      SameReading ls ls' (Program.parse source) (Program.parse source')) ∧
    (∃ ls', scan (withReturns source) = .ok ls' ∧ ls'.map (·.token) = ls.map (·.token)) ∧
    ∀ p, Program.parse source = .ok p → Program.parse (withReturns source) = .ok p := by
  obtain ⟨ls', hscan', hls'⟩ := scan_padded (padded_withReturns source) hscan
  refine ⟨fun source' hpadded => ?_, ⟨ls', hscan', map_token_of_beside hls'⟩,
    (sameReading_of_beside hscan hscan' hls').2 rfl⟩
  obtain ⟨ls', hscan', hls'⟩ := scan_padded hpadded hscan
  exact ⟨ls', hscan', map_token_of_beside hls', (sameReading_of_beside hscan hscan' hls').1⟩

/-- A call over two lines. -/
def brokenSource : String := "f(1,\n2)\n"

/-- The same call between comments, with a line added between its parentheses. -/
def commentedSource : String := "# above\nf(1, \t# one\n \n2)\n# below"

theorem padded_commentedSource : Padded true brokenSource.toList commentedSource.toList := by
  have hplain : brokenSource.toList = ['f', '(', '1', ','] ++ '\n' :: (['2', ')'] ++ '\n' :: []) := by
    decide +kernel
  have hpadded : commentedSource.toList = '#' :: " above".toList ++ '\n' ::
      (['f', '(', '1', ','] ++ (' ' :: '\t' :: '#' :: " one".toList ++ '\n' ::
        ([' '] ++ '\n' :: (['2', ')'] ++ ([] ++ '\n' :: ([] ++ '#' :: " below".toList)))))) := by
    decide +kernel
  rw [hplain, hpadded]
  exact .inserted rfl (.comment (by decide)) <| .line (by decide)
    (.blank rfl (.blank rfl (.comment (by decide)))) <| .inserted rfl (.blank rfl .nil) <|
      .line (by decide) .nil <| .last (by decide) (.comment (by decide))

/-- A call over two lines is read in the same way between comments and with carriage returns. -/
theorem parse_padded_brokenSource : ∃ ls ls', scan brokenSource = .ok ls ∧
    scan commentedSource = .ok ls' ∧
    SameReading ls ls' (Program.parse brokenSource) (Program.parse commentedSource) ∧
    ∃ p, Program.parse (withReturns brokenSource) = .ok p := by
  have hscanned : (scan brokenSource).toOption.isSome = true := by decide +kernel
  have hparsed : (Program.parse brokenSource).toOption.isSome = true := by decide +kernel
  cases hscan : scan brokenSource with
  | error e => simp [hscan, Except.toOption] at hscanned
  | ok ls =>
    cases hparse : Program.parse brokenSource with
    | error e => simp [hparse, Except.toOption] at hparsed
    | ok p =>
      obtain ⟨hpadded, -, hreturns⟩ := Program.parse_padded hscan
      obtain ⟨ls', hscan', -, hsame⟩ := hpadded commentedSource padded_commentedSource
      exact ⟨ls, ls', rfl, hscan', hparse ▸ hsame, p, hreturns p hparse⟩

end Stampline
