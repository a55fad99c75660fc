import Stampline.Proofs.Syntax.Accepted
import Stampline.Proofs.Syntax.Recognized
import Stampline.Proofs.Token.Tiles

/-!
# No parentheses that are not needed

Of all the texts of a program, its written form opens the fewest parentheses. A text opens at least
as many as the tokens that are read from it, these at least as many as the tree that derives from
them needs, and the written form opens just those. So no pair can be left out of a written form: what
is left would be another text of the same program, with fewer.
-/

namespace Stampline

/-- How many characters of a text open a parenthesis. -/
def openingsIn (text : String) : Nat := text.toList.count '('

@[simp] theorem openingsIn_append (s t : String) :
    openingsIn (s ++ t) = openingsIn s + openingsIn t := by
  simp [openingsIn]

/-- How many characters that open a parenthesis a token is read from, at the least. -/
def Token.openings : Token → Nat
  | .symbol .leftParen => 1
  | .name id => openingsIn id
  | .text value => openingsIn value
  | _ => 0

/-- How many of them lexemes are read from, at the least. -/
def openings : List Lexeme → Nat
  | [] => 0
  | l :: ls => l.token.openings + openings ls

@[simp] theorem openings_nil : openings [] = 0 := rfl

@[simp] theorem openings_cons (t : Token) (span : Span) (ls : List Lexeme) :
    openings (⟨t, span⟩ :: ls) = t.openings + openings ls := rfl

@[simp] theorem openings_append (ls ls' : List Lexeme) :
    openings (ls ++ ls') = openings ls + openings ls' := by
  induction ls with
  | nil => exact (Nat.zero_add _).symm
  | cons l ls ih => rw [List.cons_append, openings, openings, ih, Nat.add_assoc]

theorem openings_eq_zero {ls : List Lexeme} (h : ∀ l ∈ ls, l.token.isVisible = false) :
    openings ls = 0 := by
  induction ls with
  | nil => rfl
  | cons l ls ih =>
    have hl : l.token.openings = 0 := by
      have hvisible := h l (.head _)
      cases hl : l.token <;> simp_all [Token.isVisible, Token.openings]
    have hls := ih fun m hm => h m (.tail _ hm)
    obtain ⟨t, span⟩ := l
    rw [openings_cons, hl, hls]

/-! ## From the text to its tokens -/

theorem unescape?_ne_opening {e c : Char} (h : unescape? e = some c) : c ≠ '(' := by
  unfold unescape? at h
  split at h <;> first | (obtain rfl := Option.some.inj h; decide) | cases h

theorem openings_readQuoted {quote : Char} {seen : List Char} {width : Nat} {cs : List Char}
    {r : Reading} (h : readQuoted quote seen width cs = .ok r) :
    r.token.openings + r.rest.count '(' ≤ seen.count '(' + cs.count '(' := by
  fun_induction readQuoted quote seen width cs with
  | case1 => cases h
  | case2 => cases h
  | case3 seen width e rest c hc ih =>
    have hrest := ih h
    rw [List.count_cons_of_ne (unescape?_ne_opening hc)] at hrest
    simp only [List.count_cons]
    omega
  | case4 => cases h
  | case5 => cases h
  | case6 seen width c cs =>
    obtain rfl := Except.ok.inj h
    simp only [Token.openings, openingsIn, String.toList_ofList, List.count_reverse,
      List.count_cons]
    omega
  | case7 seen width c cs _ _ _ ih =>
    have hrest := ih h
    simp only [List.count_cons] at hrest ⊢
    omega

theorem openings_soleSymbol? {c : Char} {s : Symbol} (h : soleSymbol? c = some s) :
    (Token.symbol s).openings ≤ [c].count '(' := by
  unfold soleSymbol? at h
  split at h <;> first | (obtain rfl := Option.some.inj h; decide) | cases h

theorem openings_growingSymbol? {c : Char} {short long : Symbol}
    (h : growingSymbol? c = some (short, long)) :
    (Token.symbol short).openings = 0 ∧ (Token.symbol long).openings = 0 := by
  unfold growingSymbol? at h
  split at h <;> first | (obtain ⟨rfl, rfl⟩ := Prod.mk.inj (Option.some.inj h); decide) | cases h

theorem openings_readSymbol? {c : Char} {cs : List Char} {r : Reading}
    (h : readSymbol? c cs = some r) :
    r.token.openings + r.rest.count '(' ≤ (c :: cs).count '(' := by
  have hsplit : ([c] ++ cs).count '(' = [c].count '(' + cs.count '(' := List.count_append
  rw [List.singleton_append] at hsplit
  unfold readSymbol? at h
  split at h
  · rename_i hsole
    obtain rfl := Option.some.inj h
    have hopens := openings_soleSymbol? hsole
    dsimp only
    omega
  · split at h
    · cases h
    · rename_i hgrowing
      obtain ⟨hshort, hlong⟩ := openings_growingSymbol? hgrowing
      split at h
      · obtain rfl := Option.some.inj h
        simp only [hlong, List.count_cons]
        omega
      · obtain rfl := Option.some.inj h
        dsimp only
        omega

/-- The letters of a word, and those behind it, are characters of the text. -/
theorem openings_readWord (cs : List Char) :
    (readWord cs).token.openings + (readWord cs).rest.count '(' ≤ cs.count '(' := by
  have hsplit : cs.count '(' =
      (cs.takeWhile isNameRest).count '(' + (cs.dropWhile isNameRest).count '(' := by
    rw [← List.count_append, List.takeWhile_append_dropWhile]
  have hword : (readWord cs).token.openings ≤ (cs.takeWhile isNameRest).count '(' := by
    unfold readWord Token.ofWord
    dsimp only
    split
    · exact Nat.zero_le _
    · simp [Token.openings, openingsIn]
  have hrest : (readWord cs).rest = cs.dropWhile isNameRest := rfl
  rw [hrest]
  omega

/-- A token opens no more parentheses than the characters it is read from. -/
theorem openings_readToken {c : Char} {cs : List Char} {r : Reading} (h : readToken c cs = .ok r) :
    r.token.openings + r.rest.count '(' ≤ (c :: cs).count '(' := by
  unfold readToken at h
  split at h
  · rename_i hsymbol
    obtain rfl := Except.ok.inj h
    exact openings_readSymbol? hsymbol
  · split at h
    · split at h
      · obtain rfl := Except.ok.inj h
        simp only [Token.openings, List.count_cons]
        omega
      · cases h
    · split at h
      · have hquoted := openings_readQuoted h
        simp only [List.count_nil, List.count_cons] at hquoted ⊢
        omega
      · split at h
        · unfold readInteger at h
          dsimp only at h
          split at h
          · obtain rfl := Except.ok.inj h
            have hrest := (List.dropWhile_sublist isDigitOrGap (l := c :: cs)).count_le '('
            simpa [Token.openings] using hrest
          · cases h
        · split at h
          · obtain rfl := Except.ok.inj h
            exact openings_readWord _
          · cases h

theorem openings_scanFrom {zone : Zone} {cs : List Char} {cur : Cursor} {ls : List Lexeme}
    (h : scanFrom zone cs cur = .ok ls) :
    openings ls ≤ openings cur.emitted.reverse + cs.count '(' := by
  fun_induction scanFrom zone cs cur with
  | case1 zone cur =>
    obtain rfl := Except.ok.inj h
    obtain ⟨closing, hclose, hclosing⟩ := cur.close_eq
    have hlayout := openings_eq_zero fun l hl => (hclosing l hl).1
    rw [hclose, openings_append, hlayout]
    exact Nat.le_add_right _ _
  | case2 zone cur rest next ih =>
    have hrest := ih h
    have hbreak : openings next.2.emitted.reverse = openings cur.emitted.reverse := by
      show openings (zone.breakLine cur).2.emitted.reverse = _
      unfold Zone.breakLine
      split
      · rfl
      · split
        · simp [Cursor.emit, Cursor.nextLine, Token.openings]
        · rfl
    rw [hbreak] at hrest
    simp only [List.count_cons]
    omega
  | case3 zone cur rest comment hne ih =>
    have hrest := ih h
    have hsuffix := (List.dropWhile_sublist (· ≠ '\n') (l := rest)).count_le '('
    have hskip : openings (cur.skip (1 + byteWidth comment)).emitted.reverse =
        openings cur.emitted.reverse := rfl
    simp only [List.count_cons]
    omega
  | case4 zone cur c rest _ _ _ ih =>
    have hrest := ih h
    have hskip : openings (cur.skip 1).emitted.reverse = openings cur.emitted.reverse := rfl
    simp only [List.count_cons]
    omega
  | case5 => cases h
  | case6 => cases h
  | case7 zone cur c rest _ _ _ entered henter r hr ih =>
    have hrest := ih h
    have htoken := openings_readToken hr
    obtain ⟨layout, hemitted, -, -, hlayout⟩ := Cursor.emitted_enter henter
    have hinvisible : openings layout = 0 := openings_eq_zero fun l hl => by
      rcases (hlayout l hl).1 with ht | ht <;> rw [ht] <;> rfl
    have hemit : openings (entered.emit r.token r.width).emitted.reverse =
        openings entered.emitted.reverse + r.token.openings := by
      simp [Cursor.emit]
    rw [hemit, hemitted, openings_append, hinvisible] at hrest
    omega

/-- The tokens of a text open no more parentheses than its characters do. -/
theorem openings_scan {source : String} {ls : List Lexeme} (h : scan source = .ok ls) :
    openings ls ≤ openingsIn source := by
  have hscan := openings_scanFrom h
  rwa [List.reverse_nil, openings_nil, Nat.zero_add] at hscan

/-! ## From the tree to its written form -/

@[simp] theorem openingsIn_parenthesized (least strength : Strength) (body : String) :
    openingsIn (parenthesized least strength body) = enclosure least strength + openingsIn body := by
  unfold parenthesized enclosure
  split
  · simp [openingsIn, Nat.add_comm]
  · exact (Nat.zero_add _).symm

@[simp] theorem openingsIn_spelling_binary (op : BinaryOp) : openingsIn op.spelling = 0 := by
  cases op <;> rfl

@[simp] theorem openingsIn_spelling_compare (op : Comparison) : openingsIn op.spelling = 0 := by
  cases op <;> rfl

@[simp] theorem openingsIn_margin (depth : Nat) : openingsIn (margin depth) = 0 := by
  induction depth with
  | zero => rfl
  | succ depth ih =>
    rw [margin, openingsIn_append, ih]
    rfl

/-- How many parentheses are opened in several texts. -/
def openingsOf : List String → Nat
  | [] => 0
  | text :: texts => openingsIn text + openingsOf texts

@[simp] theorem openingsOf_nil : openingsOf [] = 0 := rfl

@[simp] theorem openingsOf_cons (text : String) (texts : List String) :
    openingsOf (text :: texts) = openingsIn text + openingsOf texts := rfl

/-- The commas between texts open nothing. -/
theorem openingsIn_intercalate (texts : List String) :
    openingsIn (", ".intercalate texts) = openingsOf texts := by
  induction texts with
  | nil => rfl
  | cons text texts ih =>
    cases texts with
    | nil => simp
    | cons next texts =>
      have hcomma : openingsIn ", " = 0 := rfl
      rw [String.intercalate_cons_cons, openingsIn_append, openingsIn_append, ih, hcomma]
      simp

theorem openingsIn_toString {n : Int} (h : 0 ≤ n) : openingsIn (toString n) = 0 := by
  obtain ⟨m, rfl⟩ := Int.eq_ofNat_of_zero_le h
  have htext : (toString (m : Int)).toList = Nat.toDigits 10 m := by
    show (toString m).toList = _
    simp
  rw [openingsIn, htext, List.count_eq_zero]
  intro hmem
  have hdigit := Nat.isDigit_of_mem_toDigits (by decide) (by decide) hmem
  exact absurd hdigit (by decide)

theorem openingsIn_escaped (c : Char) : openingsIn (escaped c) = [c].count '(' := by
  by_cases hc : c ∈ ['\\', '\x27', '\n', '\t', '\r', '\x00']
  · simp only [List.mem_cons, List.not_mem_nil, or_false] at hc
    rcases hc with rfl | rfl | rfl | rfl | rfl | rfl <;> rfl
  · simp only [List.mem_cons, List.not_mem_nil, or_false, not_or] at hc
    obtain ⟨hslash, hquote, hline, htab, hreturn, hnull⟩ := hc
    simp [escaped, openingsIn, hslash, hquote, hline, htab, hreturn, hnull]

/-- A quoted text opens what the text itself does. -/
theorem openingsIn_quoted (value : String) : openingsIn (quoted value) = openingsIn value := by
  have hjoin : ∀ cs : List Char, openingsIn (String.join (cs.map escaped)) = cs.count '(' := by
    intro cs
    induction cs with
    | nil => rfl
    | cons c cs ih =>
      rw [List.map_cons, String.join_cons, openingsIn_append, openingsIn_escaped, ih,
        ← List.count_append]
      rfl
  have hquote : openingsIn "'" = 0 := rfl
  rw [quoted, openingsIn_append, openingsIn_append, hjoin, hquote, Nat.zero_add, Nat.add_zero]
  rfl

theorem enclosure_tighter (k strength : Strength) :
    enclosure k strength ≤ enclosure k.tighter strength :=
  enclosure_mono (by cases k <;> decide) strength

/-- Where a place asks for just the strength that an expression has, there are no parentheses around
it. -/
theorem openings_unenclosed {k : Strength} {e : Expr} {n : Nat} (hstrength : e.strength = k)
    (h : openingsIn e.bare ≤ n) : enclosure k e.strength + openingsIn e.bare ≤ n := by
  rwa [hstrength, enclosure_self, Nat.zero_add]

/-! ## From the tokens to the tree -/

mutual

/-- The lexemes of an expression open at least the parentheses that its written form opens in the
same place. -/
theorem DerivesExpr.openings_le {b : Nat} {k : Strength} {used : List Lexeme} {e : Expr} :
    DerivesExpr b k used e → (e.Formed fun value => 0 ≤ value.toInt) →
      enclosure k e.strength + openingsIn e.bare ≤ openings used
  | @DerivesExpr.number _ span value, hformed => by
    have hsign : ¬value.toInt < 0 := Int.not_lt.2 hformed
    refine openings_unenclosed (if_neg hsign) ?_
    rw [Expr.bare, openingsIn_toString hformed]
    exact Nat.zero_le _
  | .text, _ => openings_unenclosed rfl (Nat.le_of_eq (openingsIn_quoted _))
  | .name, _ => openings_unenclosed rfl (Nat.le_refl _)
  | @DerivesExpr.parens _ used e _ _ h, hformed => by
    have hinside := h.openings_le hformed
    have hle := enclosure_le_one .atom e.strength
    simp only [openings_cons, openings_append, Token.openings]
    omega
  | .member h hused, hformed => by
    have hreceiver := h.openings_le hformed.1
    have hdot : openingsIn "." = 0 := rfl
    subst hused
    refine openings_unenclosed rfl ?_
    simp only [Expr.bare, openingsIn_append,
      openingsIn_parenthesized, openings_append, openings_cons, openings_nil, Token.openings]
    omega
  | .call hcallee hargs hused, hformed => by
    have hcallee := hcallee.openings_le hformed.1
    have hargs := hargs.openings_le hformed.2.1 hformed.2.2.1
    have hopening : openingsIn "(" = 1 := rfl
    have hclosing : openingsIn ")" = 0 := rfl
    subst hused
    refine openings_unenclosed rfl ?_
    simp only [Expr.bare, openingsIn_append,
      openingsIn_parenthesized, openingsIn_intercalate, openings_append, openings_cons,
      openings_nil, Token.openings]
    omega
  | .negate h hused, hformed => by
    have hoperand := h.openings_le hformed
    have hminus : openingsIn "-" = 0 := rfl
    subst hused
    refine openings_unenclosed rfl ?_
    simp only [Expr.bare, openingsIn_append,
      openingsIn_parenthesized, openings_cons]
    omega
  | .binary hleft hright, hformed => by
    have hleft := hleft.openings_le hformed.1
    have hright := hright.openings_le hformed.2
    have hblank : openingsIn " " = 0 := rfl
    refine openings_unenclosed rfl ?_
    simp only [Expr.bare, openingsIn_append,
      openingsIn_parenthesized, openingsIn_spelling_binary, openings_append, openings_cons]
    omega
  | .compare hleft hright, hformed => by
    have hleft := hleft.openings_le hformed.1
    have hright := hright.openings_le hformed.2
    have hblank : openingsIn " " = 0 := rfl
    refine openings_unenclosed rfl ?_
    simp only [Expr.bare, openingsIn_append,
      openingsIn_parenthesized, openingsIn_spelling_compare, openings_append, openings_cons]
    omega
  | .loosen h, hformed =>
    Nat.le_trans (Nat.add_le_add_right (enclosure_tighter k _) _) (h.openings_le hformed)

theorem DerivesArgs.openings_le {b : Nat} {used : List Lexeme} {args : List Expr}
    {keywords : List Keyword} : DerivesArgs b used args keywords →
      ExprsFormed (fun value => 0 ≤ value.toInt) args →
        KeywordsFormed (fun value => 0 ≤ value.toInt) keywords →
          openingsOf (argTexts args ++ keywordTexts keywords) ≤ openings used
  | .nil, _, _ => Nat.le_refl _
  | .positional h hrest, hargs, hkeywords => by
    have hfirst := h.openings_le hargs.1
    have hothers := hrest.openings_le hargs.2 hkeywords
    simp only [argTexts, List.cons_append, openingsOf_cons, openings_append] at hothers ⊢
    omega
  | .keyword h hused hrest _, hargs, hkeywords => by
    have hfirst := h.openings_le hkeywords.2.1
    have hothers := hrest.openings_le hargs hkeywords.2.2
    have hassign : openingsIn "=" = 0 := rfl
    subst hused
    simp only [argTexts, keywordTexts, Keyword.written, List.nil_append, openingsOf_cons,
      openingsIn_append, openings_append, openings_cons, Token.openings] at hothers ⊢
    omega

theorem DerivesMoreArgs.openings_le {b : Nat} {used : List Lexeme} {args : List Expr}
    {keywords : List Keyword} : DerivesMoreArgs b used args keywords →
      ExprsFormed (fun value => 0 ≤ value.toInt) args →
        KeywordsFormed (fun value => 0 ≤ value.toInt) keywords →
          openingsOf (argTexts args ++ keywordTexts keywords) ≤ openings used
  | .nil, _, _ => Nat.le_refl _
  | .cons h, hargs, hkeywords =>
    Nat.le_trans (h.openings_le hargs hkeywords) (Nat.le_add_left _ _)

end

/-- An expression that stands by itself is not put in parentheses. -/
theorem DerivesExpr.openings_bare_le {b : Nat} {used : List Lexeme} {e : Expr}
    (h : DerivesExpr b .loosest used e) (hformed : e.Formed fun value => 0 ≤ value.toInt) :
    openingsIn e.bare ≤ openings used := by
  have hle := h.openings_le hformed
  rwa [enclosure_loosest, Nat.zero_add] at hle

mutual

theorem DerivesParams.openings_le {used : List Lexeme} {params : List Param} :
    DerivesParams used params → openingsOf (params.map Param.name) ≤ openings used
  | .nil => Nat.le_refl _
  | .cons hrest _ => Nat.add_le_add_left hrest.openings_le _

theorem DerivesMoreParams.openings_le {used : List Lexeme} {params : List Param} :
    DerivesMoreParams used params → openingsOf (params.map Param.name) ≤ openings used
  | .nil => Nat.le_refl _
  | .cons h => Nat.le_trans h.openings_le (Nat.le_add_left _ _)

end

theorem DerivesSimple.openings_le {b : Nat} {used : List Lexeme} {s : Stmt}
    (h : DerivesSimple b used s) (hformed : s.Formed fun value => 0 ≤ value.toInt) (depth : Nat) :
    openingsIn (s.written depth) ≤ openings used := by
  have hline : openingsIn "\n" = 0 := rfl
  cases h with
  | pass =>
    have hword : openingsIn "pass\n" = 0 := rfl
    simp [Stmt.written, hword]
  | giveZero =>
    have hword : openingsIn "return\n" = 0 := rfl
    simp [Stmt.written, hword]
  | give h hused =>
    have hvalue := h.openings_bare_le hformed
    have hword : openingsIn "return " = 0 := rfl
    subst hused
    simp only [Stmt.written, openingsIn_append, openingsIn_margin, openings_cons]
    omega
  | assign htarget h hused =>
    have hname := htarget.openings_bare_le hformed.1
    have hvalue := h.openings_bare_le hformed.2
    have hassign : openingsIn " = " = 0 := rfl
    subst hused
    simp only [Expr.bare] at hname
    simp only [Stmt.written, openingsIn_append, openingsIn_margin, openings_append, openings_cons]
    omega
  | eval h =>
    have hvalue := h.openings_bare_le hformed
    simp only [Stmt.written, openingsIn_append, openingsIn_margin]
    omega

/-- How deep a block stands, and whether it is written as a link, does not matter to the parentheses
that it opens. -/
theorem openingsIn_written : ByStatement
    (fun s => ∀ depth depth', openingsIn (s.written depth) = openingsIn (s.written depth'))
    (fun block => ∀ depth depth',
      openingsIn (blockText depth block) = openingsIn (blockText depth' block))
    (fun orelse => ∀ depth depth',
      openingsIn (orelseText depth orelse) = openingsIn (blockText depth' orelse)) where
  define span name params body hbody depth depth' := by
    simp only [Stmt.written, openingsIn_append, openingsIn_margin, hbody (depth + 1) (depth' + 1)]
  giveZero span depth depth' := by simp only [Stmt.written, openingsIn_append, openingsIn_margin]
  give span value depth depth' := by simp only [Stmt.written, openingsIn_append, openingsIn_margin]
  assign span target value depth depth' := by
    simp only [Stmt.written, openingsIn_append, openingsIn_margin]
  eval span value depth depth' := by simp only [Stmt.written, openingsIn_append, openingsIn_margin]
  branch span test body orelse hbody horelse depth depth' := by
    have hlast : openingsIn (orelseText depth orelse) = openingsIn (orelseText depth' orelse) :=
      (horelse depth 0).trans (horelse depth' 0).symm
    simp only [Stmt.written, openingsIn_append, openingsIn_margin, hlast,
      hbody (depth + 1) (depth' + 1)]
  loop span test body hbody depth depth' := by
    simp only [Stmt.written, openingsIn_append, openingsIn_margin, hbody (depth + 1) (depth' + 1)]
  pass span depth depth' := by simp only [Stmt.written, openingsIn_append, openingsIn_margin]
  nil depth depth' := rfl
  cons s ss hs hss depth depth' := by
    simp only [blockText, openingsIn_append, hs depth depth', hss depth depth']
  absent depth depth' := rfl
  link span test body orelse hbody horelse depth depth' := by
    have hlast : openingsIn (orelseText depth orelse) = openingsIn (orelseText depth' orelse) :=
      (horelse depth 0).trans (horelse depth' 0).symm
    have hif : openingsIn "if " = 0 := rfl
    have helif : openingsIn "elif " = 0 := rfl
    have hnil : openingsIn "" = 0 := rfl
    simp only [orelseText, blockText, Stmt.written, openingsIn_append, openingsIn_margin, hlast,
      hbody (depth + 1) (depth' + 1), hif, helif, hnil]
    omega
  otherwise block hne hlink hblock depth depth' := by
    have helse : openingsIn "else:\n" = 0 := rfl
    rw [orelseText_of_not_isLink hne hlink, openingsIn_append, openingsIn_append, openingsIn_margin,
      helse, hblock (depth + 1) depth']
    omega

@[simp] theorem openingsIn_orelseText (depth : Nat) (orelse : List Stmt) :
    openingsIn (orelseText depth orelse) = openingsIn (blockText depth orelse) :=
  (openingsIn_written.blocks orelse).2 depth depth

mutual

/-- The lexemes of a statement open at least the parentheses that its written form opens, wherever it
stands. -/
theorem DerivesStmt.openings_le {b : Nat} {used : List Lexeme} {s : Stmt} :
    DerivesStmt b used s → (s.Formed fun value => 0 ≤ value.toInt) → ∀ depth,
      openingsIn (s.written depth) ≤ openings used
  | .line h, hformed, depth => by
    have hline := h.openings_le hformed depth
    rw [openings_append]
    omega
  | .define hparams hbody hused, hformed, depth => by
    have hparams := hparams.openings_le
    have hbody := hbody.openings_le hformed.2.2.2.2 (depth + 1)
    have hdef : openingsIn "def " = 0 := rfl
    have hopening : openingsIn "(" = 1 := rfl
    have hclosing : openingsIn "):\n" = 0 := rfl
    subst hused
    simp only [Stmt.written, openingsIn_append, openingsIn_margin, openingsIn_intercalate,
      openings_cons, openings_append, Token.openings]
    omega
  | .branch h, hformed, depth => h.openings_le hformed depth
  | .loop htest hbody hused, hformed, depth => by
    have htest := htest.openings_bare_le hformed.1
    have hbody := hbody.openings_le hformed.2.2 (depth + 1)
    have hwhile : openingsIn "while " = 0 := rfl
    have hcolon : openingsIn ":\n" = 0 := rfl
    subst hused
    simp only [Stmt.written, openingsIn_append, openingsIn_margin, openings_cons, openings_append]
    omega

theorem DerivesBranch.openings_le {b : Nat} {word : Reserved} {used : List Lexeme} {s : Stmt} :
    DerivesBranch b word used s → (s.Formed fun value => 0 ≤ value.toInt) → ∀ depth,
      openingsIn (s.written depth) ≤ openings used
  | .mk htest hbody horelse hused, hformed, depth => by
    have htest := htest.openings_bare_le hformed.1
    have hbody := hbody.openings_le hformed.2.2.1 (depth + 1)
    have horelse := horelse.openings_le hformed.2.2.2 depth
    have hif : openingsIn "if " = 0 := rfl
    have hcolon : openingsIn ":\n" = 0 := rfl
    subst hused
    simp only [Stmt.written, openingsIn_append, openingsIn_margin, openingsIn_orelseText,
      openings_cons, openings_append]
    omega

theorem DerivesElse.openings_le {b : Nat} {used : List Lexeme} {block : List Stmt} :
    DerivesElse b used block → BlockFormed (fun value => 0 ≤ value.toInt) block → ∀ depth,
      openingsIn (blockText depth block) ≤ openings used
  | .absent, _, _ => Nat.le_refl _
  | .link h, hformed, depth => by
    have hlink := h.openings_le hformed.1 depth
    rwa [blockText, blockText, String.append_empty]
  | .otherwise h, hformed, depth => by
    have hblock := h.openings_le hformed depth
    simp only [openings_cons]
    omega

theorem DerivesSuite.openings_le {b : Nat} {used : List Lexeme} {block : List Stmt} :
    DerivesSuite b used block → BlockFormed (fun value => 0 ≤ value.toInt) block → ∀ depth,
      openingsIn (blockText depth block) ≤ openings used
  | .line h, hformed, depth => by
    have hline := h.openings_le hformed.1 depth
    rw [blockText, blockText, String.append_empty, openings_append]
    omega
  | .block h _, hformed, depth => by
    have hblock := h.openings_le hformed depth
    simp only [openings_cons, openings_append]
    omega

theorem DerivesBlock.openings_le {b : Nat} {used : List Lexeme} {block : List Stmt} :
    DerivesBlock b used block → BlockFormed (fun value => 0 ≤ value.toInt) block → ∀ depth,
      openingsIn (blockText depth block) ≤ openings used
  | .nil, _, _ => Nat.le_refl _
  | .cons h hrest, hformed, depth => by
    have hfirst := h.openings_le hformed.1 depth
    have hothers := hrest.openings_le hformed.2 depth
    rw [blockText, openingsIn_append, openings_append]
    omega

end

theorem DerivesProgram.openings_le {used : List Lexeme} {p : Program} (h : DerivesProgram used p)
    (hformed : BlockFormed (fun value => 0 ≤ value.toInt) p) : openingsIn p.print ≤ openings used := by
  induction h with
  | done => exact Nat.le_refl _
  | newline _ ih => exact Nat.le_trans (ih hformed) (Nat.le_add_left _ _)
  | @stmt ls s rest p h _ ih =>
    have hfirst := h.openings_le hformed.1 0
    have hothers := ih hformed.2
    have hprint : Program.print (s :: p) = s.written 0 ++ p.print := rfl
    rw [hprint, openingsIn_append, openings_append]
    omega

/-! ## Programs -/

/-- No text of a program opens fewer parentheses than its written form. -/
theorem Program.openings_print_le {source : String} {p : Program}
    (h : Program.parse source = .ok p) : openingsIn p.print ≤ openingsIn source := by
  obtain ⟨lexemes, hscan, hderives⟩ := Program.derives_of_parse h
  exact Nat.le_trans (hderives.openings_le (Program.fits_of_parse h).formed) (openings_scan hscan)

/-- A program that is written with parentheses, and without them another one. -/
def groupedSource : String := "x = (1 + 2) * 3\n"

/-- If a pair of parentheses is left out of the written form of a program, what is left is no text of
that program: it is not read, or it is read as another one. -/
theorem Program.erase_ne_of_unparenthesized {p q : Program} {before inside behind : String}
    (hprint : p.print = before ++ "(" ++ inside ++ ")" ++ behind)
    (hq : Program.parse (before ++ inside ++ behind) = .ok q) : q.erase ≠ p.erase := by
  intro herase
  have hsame : q.print = p.print := by
    rw [← Program.print_erase q, herase, Program.print_erase]
  have hfewest := Program.openings_print_le hq
  have hopening : openingsIn "(" = 1 := rfl
  rw [hsame, hprint] at hfewest
  simp only [openingsIn_append] at hfewest
  omega

theorem erase_ne_of_unparenthesized_groupedSource : ∃ p q, Program.parse groupedSource = .ok p ∧
    p.print = "x = " ++ "(" ++ "1 + 2" ++ ")" ++ " * 3\n" ∧
      Program.parse ("x = " ++ "1 + 2" ++ " * 3\n") = .ok q ∧ q.erase ≠ p.erase := by
  have hparsed : (Program.parse groupedSource).toOption.map Program.print =
      some ("x = " ++ "(" ++ "1 + 2" ++ ")" ++ " * 3\n") := by decide +kernel
  have hleft : (Program.parse ("x = " ++ "1 + 2" ++ " * 3\n")).toOption.isSome = true := by
    decide +kernel
  cases hp : Program.parse groupedSource with
  | error e =>
    rw [hp] at hparsed
    cases hparsed
  | ok p =>
    rw [hp] at hparsed
    have hprint := Option.some.inj hparsed
    cases hq : Program.parse ("x = " ++ "1 + 2" ++ " * 3\n") with
    | error e =>
      rw [hq] at hleft
      cases hleft
    | ok q => exact ⟨p, q, rfl, hprint, rfl, Program.erase_ne_of_unparenthesized hprint hq⟩

end Stampline
