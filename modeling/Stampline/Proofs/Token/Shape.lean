import Mathlib.Data.List.TakeWhile
import Stampline.Proofs.Token.Sound

/-!
# The shape of the layout

Which tokens may stand behind which, how blocks nest, and what an open parenthesis keeps out. All of
it is said of each token and those before it (`AtEach`), so that one lemma carries it from the tokens
so far to one token more. `wellLaid_scan` puts together what a parser may rely on.
-/

namespace Stampline

/-! ## What stands behind what -/

namespace Token

/-- Visible tokens stand for characters of the text. The others are the layout and the end of the
input. -/
def isVisible : Token → Bool
  | newline | indent | dedent | endOfInput => false
  | _ => true

/-- Whether a token may stand behind `before`, or first where there is none before it. -/
def MayFollow : Token → Option Token → Prop
  | newline, before => ∃ t, before = some t ∧ t.isVisible = true
  | indent, before => before = none ∨ before = some newline
  | dedent, before => before = some newline ∨ before = some dedent
  | endOfInput, before => before = none ∨ before = some newline ∨ before = some dedent
  | _, _ => True

theorem mayFollow_of_isVisible {t : Token} (ht : t.isVisible = true) (before : Option Token) :
    t.MayFollow before := by
  cases t <;> trivial

/-- Nothing but a visible token stands behind the opening of a block. -/
theorem isVisible_of_mayFollow_indent {t : Token} (h : t.MayFollow (some .indent)) :
    t.isVisible = true := by
  cases t <;> simp_all [MayFollow, isVisible]

end Token

/-- The number of parentheses that tokens leave open. -/
def openParens (ts : List Token) : Nat := ts.foldl Cursor.depthAfter 0

/-- Each token of a list stands in the relation `P` to those before it. -/
def AtEach (P : List Token → Token → Prop) (ts : List Token) : Prop :=
  ∀ front t back, ts = front ++ t :: back → P front t

namespace AtEach

variable {P : List Token → Token → Prop} {ts : List Token} {t : Token}

theorem nil : AtEach P [] := fun front t back h => by simp at h

theorem concat (h : AtEach P ts) (ht : P ts t) : AtEach P (ts ++ [t]) := by
  intro front u back hsplit
  rcases List.eq_nil_or_concat back with rfl | ⟨inner, last, rfl⟩
  · obtain ⟨rfl, hu⟩ := List.append_inj' hsplit rfl
    obtain rfl := List.singleton_inj.1 hu
    exact ht
  · rw [List.concat_eq_append, ← List.cons_append, ← List.append_assoc] at hsplit
    exact h front u inner (List.append_inj' hsplit rfl).1

end AtEach

/-! ## Blocks and parentheses -/

/-- Tokens stand behind one another as they may and leave `blocks` blocks open. -/
structure Laid (ts : List Token) (blocks : Nat) : Prop where
  follows : AtEach (fun front t => t.MayFollow front.getLast?) ts
  nested : AtEach (fun front t => (front ++ [t]).count .dedent ≤ (front ++ [t]).count .indent) ts
  opened : ts.count .indent = ts.count .dedent + blocks

namespace Laid

variable {ts : List Token} {blocks blocks' : Nat} {t : Token}

theorem nil : Laid [] 0 := ⟨.nil, .nil, rfl⟩

theorem concat (h : Laid ts blocks) (ht : t.MayFollow ts.getLast?)
    (hopened : (ts ++ [t]).count .indent = (ts ++ [t]).count .dedent + blocks') :
    Laid (ts ++ [t]) blocks' :=
  ⟨h.follows.concat ht, h.nested.concat (by omega), hopened⟩

/-- A token that opens and closes nothing. -/
theorem concat_within (h : Laid ts blocks) (ht : t.MayFollow ts.getLast?) (hindent : t ≠ .indent)
    (hdedent : t ≠ .dedent) : Laid (ts ++ [t]) blocks := by
  refine h.concat ht ?_
  simpa [List.count_append, List.count_singleton, hindent, hdedent] using h.opened

theorem concat_visible (h : Laid ts blocks) (ht : t.isVisible = true) : Laid (ts ++ [t]) blocks :=
  h.concat_within (Token.mayFollow_of_isVisible ht _) (by rintro rfl; cases ht)
    (by rintro rfl; cases ht)

theorem concat_indent (h : Laid ts blocks) (hlast : ts.getLast? = none ∨ ts.getLast? = some .newline) :
    Laid (ts ++ [.indent]) (blocks + 1) := by
  refine h.concat hlast ?_
  have := h.opened
  simp [List.count_append]
  omega

theorem concat_dedent (h : Laid ts (blocks + 1))
    (hlast : ts.getLast? = some .newline ∨ ts.getLast? = some .dedent) :
    Laid (ts ++ [.dedent]) blocks := by
  refine h.concat hlast ?_
  have := h.opened
  simp [List.count_append]
  omega

/-- Where the input may end, the innermost blocks may be closed. -/
theorem closed : ∀ (n : Nat) {ts : List Token}, Laid ts (blocks + n) →
    Token.endOfInput.MayFollow ts.getLast? →
      Laid (ts ++ List.replicate n .dedent) blocks ∧
        Token.endOfInput.MayFollow (ts ++ List.replicate n Token.dedent).getLast?
  | 0, ts, h, hlast => by simpa using ⟨h, hlast⟩
  | n + 1, ts, h, hlast => by
    have hbehind : ts.getLast? = some .newline ∨ ts.getLast? = some .dedent := by
      refine hlast.resolve_left fun hnone => ?_
      obtain rfl := List.getLast?_eq_none_iff.1 hnone
      cases h.opened
    have hstep : Laid (ts ++ [.dedent]) (blocks + n) := h.concat_dedent hbehind
    have := closed n hstep (by simp [Token.MayFollow])
    rwa [List.append_assoc, List.singleton_append, ← List.replicate_succ] at this

end Laid

/-- Tokens leave `depth` parentheses open, and between parentheses there are but visible tokens. -/
structure Sheltered (ts : List Token) (depth : Nat) : Prop where
  within : AtEach (fun front t => 0 < openParens front → t.isVisible = true) ts
  opened : openParens ts = depth

namespace Sheltered

variable {ts : List Token} {depth : Nat} {t : Token}

theorem nil : Sheltered [] 0 := ⟨.nil, rfl⟩

theorem concat (h : Sheltered ts depth) (ht : 0 < depth → t.isVisible = true) :
    Sheltered (ts ++ [t]) (Cursor.depthAfter depth t) := by
  refine ⟨h.within.concat fun hopen => ht (h.opened ▸ hopen), ?_⟩
  rw [openParens, List.foldl_append, ← openParens, h.opened]
  rfl

theorem closed : ∀ (n : Nat) {ts : List Token}, Sheltered ts 0 →
    Sheltered (ts ++ List.replicate n .dedent) 0
  | 0, ts, h => by simpa using h
  | n + 1, ts, h => by
    have hstep : Sheltered (ts ++ [.dedent]) 0 :=
      h.concat fun hopen => absurd hopen (Nat.lt_irrefl 0)
    have := closed n hstep
    rwa [List.append_assoc, List.singleton_append, ← List.replicate_succ] at this

end Sheltered

/-! ## The scanner -/

theorem readToken_isVisible {c : Char} {cs : List Char} {r : Reading} (h : readToken c cs = .ok r) :
    r.token.isVisible = true := by
  unfold readToken at h
  split at h
  · rename_i hsymbol
    obtain rfl := Except.ok.inj h
    obtain ⟨s, hs⟩ := readSymbol?_isSymbol hsymbol
    rw [hs]
    rfl
  · split at h
    · split at h
      · obtain rfl := Except.ok.inj h
        rfl
      · cases h
    · split at h
      · obtain ⟨value, hvalue⟩ := readQuoted_isText h
        rw [hvalue]
        rfl
      · split at h
        · obtain ⟨value, hvalue, -⟩ := readInteger_nonneg h
          rw [hvalue]
          rfl
        · split at h
          · rename_i hstart
            obtain rfl := Except.ok.inj h
            rcases @readWord_valid _ cs hstart with ⟨id, hid, -⟩ | ⟨word, hword⟩
            · rw [hid]
              rfl
            · rw [hword]
              rfl
          · cases h

/-- What a zone says of the tokens before it: at the margin a line has ended or none has begun, and
behind the margin stands a visible token of the line. -/
def Zone.Behind (cur : Cursor) : Zone → Prop
  | margin _ => cur.depth = 0 ∧ (cur.tokens.getLast? = none ∨ cur.tokens.getLast? = some .newline)
  | body => ∃ t, cur.tokens.getLast? = some t ∧ t.isVisible = true

namespace Cursor

/-- What holds wherever the scanner stands. -/
structure Poised (zone : Zone) (cur : Cursor) : Prop where
  laid : Laid cur.tokens cur.indents.length
  sheltered : Sheltered cur.tokens cur.depth
  deep : ∀ width ∈ cur.indents, 0 < width
  behind : zone.Behind cur

variable {zone : Zone} {cur entered : Cursor}

theorem poised_start : Poised (.margin 0) {} :=
  ⟨.nil, .nil, fun _ h => (List.not_mem_nil h).elim, rfl, .inl rfl⟩

theorem Poised.skip (h : Poised zone cur) (width : Nat) : Poised zone (cur.skip width) := by
  cases zone with
  | margin _ => exact ⟨h.laid, h.sheltered, h.deep, h.behind⟩
  | body => exact ⟨h.laid, h.sheltered, h.deep, h.behind⟩

theorem Poised.afterBlank (h : Poised zone cur) (c : Char) : Poised (zone.afterBlank c) cur := by
  cases zone with
  | margin width =>
    unfold Zone.afterBlank
    dsimp only
    split
    · exact ⟨h.laid, h.sheltered, h.deep, h.behind⟩
    · exact ⟨h.laid, h.sheltered, h.deep, h.behind⟩
  | body => exact h

theorem Poised.afterComment (h : Poised zone cur) : Poised zone.afterComment cur := by
  cases zone with
  | margin _ => exact ⟨h.laid, h.sheltered, h.deep, h.behind⟩
  | body => exact h

/-- A visible token that is emitted. -/
theorem poised_emit {t : Token} (hlaid : Laid cur.tokens cur.indents.length)
    (hsheltered : Sheltered cur.tokens cur.depth) (hdeep : ∀ width ∈ cur.indents, 0 < width)
    (ht : t.isVisible = true) (width : Nat) : Poised .body (cur.emit t width) := by
  refine ⟨?_, ?_, hdeep, t, ?_, ht⟩
  · rw [tokens_emit]
    exact hlaid.concat_visible ht
  · rw [tokens_emit]
    exact hsheltered.concat fun _ => ht
  · rw [tokens_emit, List.getLast?_concat]

/-- Blocks that are closed are closed at one empty place. -/
theorem emitted_closeTo (cur : Cursor) (width : Nat) :
    (cur.closeTo width).emitted.reverse = cur.emitted.reverse ++
      List.replicate (cur.indents.takeWhile (width < ·)).length ⟨.dedent, cur.span 0⟩ := by
  have hfold : ∀ (closed : List Nat) (emitted : List Lexeme),
      (closed.foldl (fun ls _ => ⟨.dedent, cur.span 0⟩ :: ls) emitted).reverse =
        emitted.reverse ++ List.replicate closed.length ⟨.dedent, cur.span 0⟩ := by
    intro closed
    induction closed with
    | nil => simp
    | cons _ closed ih =>
      intro emitted
      rw [List.foldl_cons, ih]
      simp [List.replicate_succ]
  exact hfold _ _

theorem length_indents_closeTo (cur : Cursor) (width : Nat) :
    cur.indents.length = (cur.closeTo width).indents.length +
      (cur.indents.takeWhile (width < ·)).length := by
  show _ = (cur.indents.dropWhile (width < ·)).length + _
  rw [Nat.add_comm, ← List.length_append, List.takeWhile_append_dropWhile]

/-- A line is entered with a visible token. -/
theorem Poised.enter (h : Poised zone cur) (henter : zone.enter cur = .ok entered) {t : Token}
    (ht : t.isVisible = true) (width : Nat) : Poised .body (entered.emit t width) := by
  obtain ⟨rfl, rfl⟩ | ⟨margin, rfl, hentered⟩ := Zone.enter_eq_ok henter
  · exact poised_emit h.laid h.sheltered h.deep ht width
  obtain ⟨hdepth, hlast⟩ := h.behind
  have hsheltered : Sheltered cur.tokens 0 := hdepth ▸ h.sheltered
  obtain ⟨hlt, rfl⟩ | ⟨-, -, rfl⟩ := hentered
  · refine poised_emit ?_ ?_ (List.forall_mem_cons.2 ⟨Nat.zero_lt_of_lt hlt, h.deep⟩) ht width
    · simpa [Cursor.tokens] using h.laid.concat_indent hlast
    · have := hsheltered.concat (t := .indent) fun hopen => absurd hopen (Nat.lt_irrefl 0)
      simpa [Cursor.tokens, hdepth, depthAfter] using this
  · have hlaid := h.laid
    rw [cur.length_indents_closeTo margin] at hlaid
    refine poised_emit ?_ ?_ (fun w hw => h.deep w ((List.dropWhile_sublist _).mem hw)) ht width
    · rw [tokens_closeTo]
      exact (hlaid.closed _ (hlast.imp_right .inl)).1
    · rw [tokens_closeTo]
      exact (show (cur.closeTo margin).depth = 0 from hdepth) ▸ hsheltered.closed _

theorem Poised.breakLine (h : Poised zone cur) :
    Poised (zone.breakLine cur).1 (zone.breakLine cur).2 := by
  cases zone with
  | margin width => exact ⟨h.laid, h.sheltered, h.deep, h.behind⟩
  | body =>
    unfold Zone.breakLine
    dsimp only
    split
    · rename_i hdepth
      have htokens : (cur.emit .newline 1).nextLine.tokens = cur.tokens ++ [.newline] :=
        cur.tokens_emit .newline 1
      refine ⟨?_, ?_, h.deep, hdepth, .inr ?_⟩
      · rw [htokens]
        exact h.laid.concat_within h.behind (by decide) (by decide)
      · rw [htokens]
        exact h.sheltered.concat fun hopen => absurd (hdepth ▸ hopen) (Nat.lt_irrefl 0)
      · rw [htokens, List.getLast?_concat]
    · exact ⟨h.laid, h.sheltered, h.deep, h.behind⟩

/-! ### The end of the input -/

/-- Where the last line has ended, the input may end. -/
theorem Poised.endLine (h : Poised zone cur) : Laid cur.endLine.tokens cur.endLine.indents.length ∧
    (cur.endLine.tokens.getLast? = none ∨ cur.endLine.tokens.getLast? = some .newline) := by
  have hhead : cur.tokens.getLast? = cur.emitted.head?.map (·.token) := by
    rw [Cursor.tokens, List.getLast?_map, List.getLast?_reverse]
  unfold Cursor.endLine
  split
  · rename_i hemitted
    exact ⟨h.laid, .inl (by rw [hhead, hemitted]; rfl)⟩
  · rename_i hemitted
    exact ⟨h.laid, .inr (by rw [hhead, hemitted]; rfl)⟩
  · rename_i hnil hnewline
    rw [tokens_emit]
    refine ⟨h.laid.concat_within ?_ (by decide) (by decide), .inr (List.getLast?_concat ..)⟩
    cases zone with
    | body => exact h.behind
    | margin width =>
      rcases h.behind.2 with hlast | hlast
      · rw [hhead, Option.map_eq_none_iff, List.head?_eq_none_iff] at hlast
        exact absurd hlast hnil
      · rw [hhead, Option.map_eq_some_iff] at hlast
        obtain ⟨⟨token, span⟩, hl, rfl⟩ := hlast
        obtain ⟨ls, hls⟩ := List.head?_eq_some_iff.1 hl
        exact absurd hls (hnewline span ls)

/-- What is emitted at the end of the input has one empty place there. -/
theorem close_eq (cur : Cursor) : ∃ closing, cur.close = cur.emitted.reverse ++ closing ∧
    ∀ l ∈ closing, l.token.isVisible = false ∧ l.span = cur.span 0 := by
  have hline : ∃ newline : List Lexeme,
      cur.endLine.emitted.reverse = cur.emitted.reverse ++ newline ∧ cur.endLine.span 0 = cur.span 0 ∧
        ∀ l ∈ newline, l.token.isVisible = false ∧ l.span = cur.span 0 := by
    unfold Cursor.endLine
    split
    · exact ⟨[], (List.append_nil _).symm, rfl, by simp⟩
    · exact ⟨[], (List.append_nil _).symm, rfl, by simp⟩
    · exact ⟨[⟨.newline, cur.span 0⟩], List.reverse_cons, rfl, by simp [Token.isVisible]⟩
  obtain ⟨newline, hemitted, hspan, hnewline⟩ := hline
  have hend : (cur.endLine.closeTo 0).span 0 = cur.span 0 := hspan
  refine ⟨newline ++ List.replicate (cur.endLine.indents.takeWhile (0 < ·)).length
    ⟨.dedent, cur.span 0⟩ ++ [⟨.endOfInput, cur.span 0⟩], ?_, ?_⟩
  · show (⟨.endOfInput, (cur.endLine.closeTo 0).span 0⟩ ::
      (cur.endLine.closeTo 0).emitted).reverse = _
    rw [List.reverse_cons, emitted_closeTo, hemitted, hspan, hend]
    simp only [List.append_assoc]
  · intro l hl
    simp only [List.mem_append, List.mem_replicate, List.mem_singleton] at hl
    rcases hl with (hl | ⟨-, rfl⟩) | rfl
    · exact hnewline l hl
    · exact ⟨rfl, rfl⟩
    · exact ⟨rfl, rfl⟩

end Cursor

/-! ## Scanned texts -/

/-- Lexemes that close a text: none of them is visible, and all stand at one empty place. -/
def Closing (ls : List Lexeme) : Prop :=
  ∃ place : Span, place.line = place.endLine ∧ place.col = place.endCol ∧
    ∀ l ∈ ls, l.token.isVisible = false ∧ l.span = place

/-- What holds of the layout among the lexemes of a text. -/
structure WellLaid (ls : List Lexeme) : Prop where
  /-- The end of the input comes last, and only there. -/
  ends : EndsOnce ls
  /-- No more blocks are closed than have been opened. -/
  nested : ∀ front back, ls = front ++ back →
    (front.map (·.token)).count .dedent ≤ (front.map (·.token)).count .indent
  /-- All blocks that are opened are closed. -/
  balanced : (ls.map (·.token)).count .indent = (ls.map (·.token)).count .dedent
  /-- A line that ends holds something. -/
  newline : ∀ front l back, ls = front ++ l :: back → l.token = .newline →
    ∃ before, front.getLast? = some before ∧ before.token.isVisible = true
  /-- The last line is ended before the last blocks are closed. -/
  ended : ls.map (·.token) = [.endOfInput] ∨ ∃ front n, ls.map (·.token) =
    front ++ .newline :: (List.replicate n .dedent ++ [.endOfInput])
  /-- A block is opened at the start of a line that holds something. -/
  indent : ∀ front l back, ls = front ++ l :: back → l.token = .indent →
    (∀ before ∈ front.getLast?, before.token = .newline) ∧
      ∃ behind, back.head? = some behind ∧ behind.token.isVisible = true
  /-- Blocks are closed at the start of a line, which opens none. -/
  dedent : ∀ front l back, ls = front ++ l :: back → l.token = .dedent →
    (∃ before, front.getLast? = some before ∧
      (before.token = .newline ∨ before.token = .dedent)) ∧
      ∀ behind ∈ back.head?, behind.token ≠ .indent
  /-- While a parenthesis is open there are visible tokens, and else what closes the text. -/
  sheltered : ∀ front l back, ls = front ++ l :: back → 0 < openParens (front.map (·.token)) →
    l.token.isVisible = false → Closing (l :: back)

namespace Laid

variable {ls front back : List Lexeme} {l : Lexeme} {blocks : Nat}

theorem mayFollow (h : Laid (ls.map (·.token)) blocks) (hsplit : ls = front ++ l :: back) :
    l.token.MayFollow (front.getLast?.map (·.token)) := by
  rw [← List.getLast?_map]
  exact h.follows (front.map (·.token)) l.token (back.map (·.token)) (by simp [hsplit])

theorem mayFollow_behind (h : Laid (ls.map (·.token)) blocks) (hsplit : ls = front ++ l :: back)
    {behind : Lexeme} (hbehind : behind ∈ back.head?) : behind.token.MayFollow (some l.token) := by
  obtain ⟨back, rfl⟩ := List.head?_eq_some_iff.1 hbehind
  simpa using h.mayFollow (show ls = (front ++ [l]) ++ behind :: back by simp [hsplit])

theorem count_dedent_le (h : Laid (ls.map (·.token)) blocks) (hsplit : ls = front ++ back) :
    (front.map (·.token)).count .dedent ≤ (front.map (·.token)).count .indent := by
  rcases List.eq_nil_or_concat front with rfl | ⟨front, last, rfl⟩
  · exact Nat.le_refl 0
  · simpa using h.nested (front.map (·.token)) last.token (back.map (·.token)) (by simp [hsplit])

theorem before_newline (h : Laid (ls.map (·.token)) blocks) (hsplit : ls = front ++ l :: back)
    (hl : l.token = .newline) :
    ∃ before, front.getLast? = some before ∧ before.token.isVisible = true := by
  have hfollow := h.mayFollow hsplit
  rw [hl] at hfollow
  obtain ⟨t, ht, hvisible⟩ := hfollow
  obtain ⟨before, hbefore, rfl⟩ := Option.map_eq_some_iff.1 ht
  exact ⟨before, hbefore, hvisible⟩

theorem before_indent (h : Laid (ls.map (·.token)) blocks) (hsplit : ls = front ++ l :: back)
    (hl : l.token = .indent) : ∀ before ∈ front.getLast?, before.token = .newline := by
  intro before hbefore
  have hfollow := h.mayFollow hsplit
  rw [hl, Option.mem_def.1 hbefore] at hfollow
  simpa [Token.MayFollow] using hfollow

theorem before_dedent (h : Laid (ls.map (·.token)) blocks) (hsplit : ls = front ++ l :: back)
    (hl : l.token = .dedent) : ∃ before, front.getLast? = some before ∧
      (before.token = .newline ∨ before.token = .dedent) := by
  have hfollow := h.mayFollow hsplit
  rw [hl] at hfollow
  rcases hfollow with ht | ht
  · obtain ⟨before, hbefore, ht⟩ := Option.map_eq_some_iff.1 ht
    exact ⟨before, hbefore, .inl ht⟩
  · obtain ⟨before, hbefore, ht⟩ := Option.map_eq_some_iff.1 ht
    exact ⟨before, hbefore, .inr ht⟩

/-- The end of the input comes later, so that something stands behind the opening of a block. -/
theorem behind_indent (h : Laid (ls.map (·.token)) blocks) (hends : EndsOnce ls)
    (hsplit : ls = front ++ l :: back) (hl : l.token = .indent) :
    ∃ behind, back.head? = some behind ∧ behind.token.isVisible = true := by
  obtain ⟨inner, span, rfl, -⟩ := hends
  cases back with
  | nil =>
    obtain ⟨-, hlast⟩ := List.append_inj' hsplit rfl
    obtain rfl := List.singleton_inj.1 hlast
    cases hl
  | cons behind back =>
    have hfollow : behind.token.MayFollow (some l.token) := h.mayFollow_behind hsplit rfl
    rw [hl] at hfollow
    exact ⟨behind, rfl, Token.isVisible_of_mayFollow_indent hfollow⟩

theorem behind_dedent (h : Laid (ls.map (·.token)) blocks) (hsplit : ls = front ++ l :: back)
    (hl : l.token = .dedent) : ∀ behind ∈ back.head?, behind.token ≠ .indent := by
  intro behind hbehind hindent
  have hfollow := h.mayFollow_behind hsplit hbehind
  rw [hl, hindent] at hfollow
  simp [Token.MayFollow] at hfollow

end Laid

namespace Cursor

variable {zone : Zone} {cur : Cursor}

/-- At the end of the input all blocks are closed. -/
theorem Poised.tokens_close (h : Poised zone cur) : cur.close.map (·.token) = cur.endLine.tokens ++
    List.replicate cur.endLine.indents.length .dedent ++ [.endOfInput] := by
  have hindents : cur.endLine.indents = cur.indents := by
    unfold Cursor.endLine
    split <;> rfl
  have hall : cur.endLine.indents.takeWhile (0 < ·) = cur.endLine.indents := by
    rw [hindents, List.takeWhile_eq_self_iff]
    exact fun width hwidth => decide_eq_true (h.deep width hwidth)
  show ((cur.endLine.closeTo 0).emit .endOfInput 0).tokens = _
  rw [tokens_emit, tokens_closeTo, hall]

/-- What is not visible and stands in an open parenthesis was emitted at the end of the input. -/
theorem Poised.closing (h : Poised zone cur) {front back : List Lexeme} {l : Lexeme}
    (hsplit : cur.close = front ++ l :: back) (hopen : 0 < openParens (front.map (·.token)))
    (hl : l.token.isVisible = false) : Closing (l :: back) := by
  obtain ⟨closing, hclose, hclosing⟩ := cur.close_eq
  rw [hclose] at hsplit
  refine ⟨cur.span 0, rfl, rfl, ?_⟩
  rcases List.append_eq_append_iff.1 hsplit with ⟨inner, -, htail⟩ | ⟨inner, hfront, htail⟩
  · exact fun l' hl' => hclosing l' (by rw [htail]; exact List.mem_append_right _ hl')
  · cases inner with
    | nil => exact fun l' hl' => hclosing l' (show l' ∈ [] ++ closing from htail ▸ hl')
    | cons m inner =>
      obtain ⟨rfl, -⟩ := List.cons.inj htail
      have hvisible := h.sheltered.within (front.map (·.token)) l.token (inner.map (·.token))
        (by simp [Cursor.tokens, hfront]) hopen
      rw [hvisible] at hl
      cases hl

/-- Where the scanner stands at the end of its input, what it has is well laid out. -/
theorem Poised.close (h : Poised zone cur) (hends : EndsOnce cur.close) : WellLaid cur.close := by
  obtain ⟨hline, hlast⟩ := h.endLine
  have htokens := h.tokens_close
  have hlaid : Laid (cur.close.map (·.token)) 0 := by
    rw [← Nat.zero_add cur.endLine.indents.length] at hline
    obtain ⟨hclosed, hend⟩ := hline.closed _ (hlast.imp_right .inl)
    rw [htokens]
    exact hclosed.concat_within hend (by decide) (by decide)
  refine ⟨hends, fun _ _ => hlaid.count_dedent_le, hlaid.opened, fun _ _ _ => hlaid.before_newline, ?_,
    fun _ _ _ hsplit hl => ⟨hlaid.before_indent hsplit hl, hlaid.behind_indent hends hsplit hl⟩,
    fun _ _ _ hsplit hl => ⟨hlaid.before_dedent hsplit hl, hlaid.behind_dedent hsplit hl⟩,
    fun _ _ _ => h.closing⟩
  rcases hlast with hlast | hlast
  · left
    have hnil := List.getLast?_eq_none_iff.1 hlast
    have hopened := hline.opened
    rw [hnil, List.count_nil, List.count_nil, Nat.zero_add] at hopened
    rw [htokens, hnil, ← hopened]
    rfl
  · right
    obtain ⟨front, hfront⟩ := List.getLast?_eq_some_iff.1 hlast
    exact ⟨front, cur.endLine.indents.length, by rw [htokens, hfront]; simp⟩

end Cursor

theorem wellLaid_scanFrom {zone : Zone} {cs : List Char} {cur : Cursor} {ls : List Lexeme}
    (hcur : cur.Poised zone) (hends : EndsOnce ls) (h : scanFrom zone cs cur = .ok ls) :
    WellLaid ls := by
  fun_induction scanFrom zone cs cur with
  | case1 =>
    obtain rfl := Except.ok.inj h
    exact hcur.close hends
  | case2 zone cur rest next ih => exact ih hcur.breakLine h
  | case3 zone cur rest comment hne ih => exact ih (hcur.afterComment.skip _) h
  | case4 zone cur c rest _ _ _ ih => exact ih ((hcur.afterBlank c).skip 1) h
  | case5 => cases h
  | case6 => cases h
  | case7 zone cur c rest _ _ _ entered henter r hr ih =>
    exact ih (hcur.enter henter (readToken_isVisible hr) r.width) h

/-- The lexemes of a text are well laid out. -/
theorem wellLaid_scan {source : String} {ls : List Lexeme} (h : scan source = .ok ls) :
    WellLaid ls :=
  wellLaid_scanFrom Cursor.poised_start (ends_scan h) h

/-- A block in a block, a comment less indented than both, and a parenthesis that stays open. -/
def unclosedSource : String := "if a:\n  if b:\n # c\n    f(\n\n  1"

/-- The layout of a text whose last parenthesis is never closed. -/
theorem wellLaid_scan_unclosedSource : ∃ ls, scan unclosedSource = .ok ls ∧ WellLaid ls := by
  have hscanned : (scan unclosedSource).toOption.isSome = true := by decide +kernel
  cases hscan : scan unclosedSource with
  | error e => simp [hscan, Except.toOption] at hscanned
  | ok ls => exact ⟨ls, rfl, wellLaid_scan hscan⟩

end Stampline
