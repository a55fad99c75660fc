import Mathlib.Data.List.Forall2
import Stampline.Proofs.Token.Spells

/-!
# Written expressions are read as their tokens
-/

namespace Stampline

/-- A text spells tokens, whatever comes behind it that a word does not go on with. -/
structure Writes (text : String) (toks : List Token) : Prop where
  spells : ∀ {stop cs ts}, Stops cs → Spells stop cs ts → Spells stop (text.toList ++ cs) (toks ++ ts)

namespace Writes

variable {text other : String} {toks others : List Token}

theorem enclosed (least strength : Strength) (h : Writes text toks) :
    Writes (parenthesized least strength text) (enclosed least strength toks) := by
  refine ⟨fun {stop cs ts} hcs hts => ?_⟩
  unfold parenthesized Stampline.enclosed
  split
  · have hclose : Spells stop (')' :: cs) (.symbol .rightParen :: ts) := .sole rfl hts
    have hbody := h.spells (Spells.stops_cons ')' rfl) hclose
    have hopen : Spells stop ('(' :: _) (.symbol .leftParen :: _) := .sole rfl hbody
    simpa using hopen
  · exact h.spells hcs hts

/-- Two texts with a symbol between them. -/
theorem join (s : Symbol) (h : Writes text toks) (h' : Writes other others) :
    Writes (text ++ " " ++ s.spelling ++ " " ++ other) (toks ++ .symbol s :: others) := by
  refine ⟨fun {stop cs ts} hcs hts => ?_⟩
  have hblank : Stops (' ' :: (s.spelling.toList ++ ' ' :: (other.toList ++ cs))) := rfl
  simpa using h.spells hblank (.spaced s (h'.spells hcs hts))

/-- A text behind which another stands in parentheses. -/
theorem applied (h : Writes text toks) (h' : Writes other others) :
    Writes (text ++ "(" ++ other ++ ")")
      (toks ++ .symbol .leftParen :: others ++ [.symbol .rightParen]) := by
  refine ⟨fun {stop cs ts} hcs hts => ?_⟩
  have hclose : Spells stop (')' :: cs) (.symbol .rightParen :: ts) := .sole rfl hts
  have hopen : Spells stop ('(' :: _) (.symbol .leftParen :: _) :=
    .sole rfl (h'.spells (Spells.stops_cons ')' rfl) hclose)
  simpa using h.spells (Spells.stops_cons '(' rfl) hopen

/-- A reserved word by itself. -/
theorem reserved (r : Reserved) : Writes r.spelling [.reserved r] :=
  ⟨fun hcs hts => .reserved r hcs hts⟩

/-- A text behind a reserved word. -/
theorem behind (r : Reserved) (h : Writes text toks) :
    Writes (r.spelling ++ " " ++ text) (.reserved r :: toks) := by
  refine ⟨fun {stop cs ts} hcs hts => ?_⟩
  have hblank : Spells stop (' ' :: (text.toList ++ cs)) _ := .blank (h.spells hcs hts)
  simpa using Spells.reserved r (Spells.stops_cons ' ' rfl) hblank

/-- Texts with commas between them. -/
theorem separated : ∀ {texts : List String} {parts : List (List Token)},
    List.Forall₂ Writes texts parts → Writes (", ".intercalate texts) (separated parts)
  | [], [], .nil => ⟨fun _ hts => hts⟩
  | [_], [_], .cons h .nil => by simpa [Stampline.separated] using h
  | t :: u :: texts, p :: q :: parts, .cons h hs => by
    have ih := separated hs
    refine ⟨fun {stop cs ts} hcs hts => ?_⟩
    have hblank : Spells stop (' ' :: ((", ".intercalate (u :: texts)).toList ++ cs)) _ :=
      .blank (ih.spells hcs hts)
    have hcomma : Spells stop (',' :: _) (.symbol .comma :: _) := .sole rfl hblank
    have hall := h.spells (Spells.stops_cons ',' rfl) hcomma
    simpa [Stampline.separated, List.intercalate, List.intersperse] using hall

end Writes

theorem BinaryOp.spelling_symbol (op : BinaryOp) : op.symbol.spelling = op.spelling := by
  cases op <;> rfl

theorem Comparison.spelling_symbol (op : Comparison) : op.symbol.spelling = op.spelling := by
  cases op <;> rfl

theorem writes_name {id : String} (hid : isName id = true) : Writes id [.name id] :=
  ⟨fun hcs hts => .name hid hcs hts⟩

theorem readSymbol?_assign {cs : List Char} (h : ∀ rest, cs ≠ '=' :: rest) :
    readSymbol? '=' cs = some ⟨.symbol .assign, 1, cs⟩ := by
  have hsole : soleSymbol? '=' = none := rfl
  have hgrowing : growingSymbol? '=' = some (.assign, .equal) := rfl
  simp only [readSymbol?, hsole, hgrowing]

/-- An equals sign before a value is that of a keyword argument. -/
theorem Spells.assign {stop cs : List Char} {t : Token} {ts : List Token}
    (ht : t.beginsExpr = true) (h : Spells stop cs (t :: ts)) :
    Spells stop ('=' :: cs) (.symbol .assign :: t :: ts) := by
  have hne : ∀ tail, cs ≠ '=' :: tail := by
    rintro tail rfl
    cases h with
    | @token _ _ r _ _ hr _ =>
      by_cases htail : ∃ rest, tail = '=' :: rest
      · obtain ⟨rest, rfl⟩ := htail
        obtain rfl : (⟨.symbol .equal, 2, rest⟩ : Reading) = r := Except.ok.inj hr
        cases ht
      · have hassign := readSymbol?_assign fun rest h => htail ⟨rest, h⟩
        simp only [readToken, hassign] at hr
        obtain rfl := Except.ok.inj hr
        cases ht
  refine .token (r := ⟨.symbol .assign, 1, cs⟩) (by decide) ?_ h
  simp only [readToken, readSymbol?_assign hne]

mutual

/-- The written form of an expression is read as its tokens. -/
theorem Expr.writes : ∀ (e : Expr), e.Formed (fun value => 0 ≤ value.toInt) →
    Writes e.bare e.tokens
  | .number _ value, h => ⟨fun hcs hts => .integer h hcs hts⟩
  | .text _ value, _ => ⟨fun _ hts => .text value hts⟩
  | .name _ id, h => writes_name h
  | .member _ receiver id, h => by
    refine ⟨fun {stop cs ts} hcs hts => ?_⟩
    have hdot : Spells stop ('.' :: (id.toList ++ cs)) (.symbol .dot :: .name id :: ts) :=
      .sole rfl (.name h.2 hcs hts)
    have hreceiver := (receiver.writes h.1).enclosed .postfixed receiver.strength
    simpa [Expr.bare, Expr.tokens] using hreceiver.spells (Spells.stops_cons '.' rfl) hdot
  | .call _ callee args keywords, h => by
    obtain ⟨hcallee, hargs, hkeywords, -⟩ := h
    have hall := Writes.separated
      (List.rel_append (argTexts_write hargs) (keywordTexts_write hkeywords))
    exact ((callee.writes hcallee).enclosed .postfixed callee.strength).applied hall
  | .binary _ op left right, h => by
    have := ((left.writes h.1).enclosed op.strength left.strength).join op.symbol
      ((right.writes h.2).enclosed op.strength.tighter right.strength)
    rwa [op.spelling_symbol] at this
  | .negate _ operand, h => by
    refine ⟨fun {stop cs ts} hcs hts => ?_⟩
    have hoperand := (operand.writes h).enclosed .sign operand.strength
    have hminus : Spells stop ('-' :: _) (.symbol .minus :: _) :=
      .sole rfl (hoperand.spells hcs hts)
    simpa [Expr.bare, Expr.tokens] using hminus
  | .compare _ op left right, h => by
    have := ((left.writes h.1).enclosed .sum left.strength).join op.symbol
      ((right.writes h.2).enclosed .sum right.strength)
    rwa [op.spelling_symbol] at this

theorem argTexts_write : ∀ {es : List Expr}, ExprsFormed (fun value => 0 ≤ value.toInt) es →
    List.Forall₂ Writes (argTexts es) (argTokens es)
  | [], _ => .nil
  | e :: _, h => .cons (e.writes h.1) (argTexts_write h.2)

theorem keywordTexts_write : ∀ {ks : List Keyword},
    KeywordsFormed (fun value => 0 ≤ value.toInt) ks →
      List.Forall₂ Writes (keywordTexts ks) (keywordTokens ks)
  | [], _ => .nil
  | .mk _ name value :: _, h => by
    refine .cons ⟨fun {stop cs ts} hcs hts => ?_⟩ (keywordTexts_write h.2.2)
    have hvalue := (value.writes h.2.1).spells hcs hts
    obtain ⟨t, rest, htokens, ht, -⟩ := value.begin_tokens
    rw [htokens, List.cons_append] at hvalue
    have hname : Spells stop (name.toList ++ '=' :: _) (.name name :: _) :=
      .name h.1 rfl (hvalue.assign ht)
    simpa [Keyword.written, htokens] using hname

end

end Stampline
