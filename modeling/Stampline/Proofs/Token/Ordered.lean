import Mathlib.Data.Prod.Lex
import Stampline.Token.Scan

/-!
# Lexemes in the order of the text

The lexemes of a text follow one another: each of them ends where it begins or further on, and the
next one does not begin before. Layout is left out of account.
-/

namespace Stampline

/-! ## Positions -/

/-- A line and a column in it. Positions are ordered as they come in a text. -/
abbrev Position := Nat ×ₗ Nat

namespace Span

/-- Where a stretch begins. -/
def first (s : Span) : Position := toLex (s.line, s.col)

/-- Where a stretch ends. -/
def final (s : Span) : Position := toLex (s.endLine, s.endCol)

/-- A stretch lies within another. -/
structure Within (s t : Span) : Prop where
  first : t.first ≤ s.first
  final : s.final ≤ t.final

theorem Within.refl (s : Span) : s.Within s := ⟨le_refl _, le_refl _⟩

theorem Within.trans {s t u : Span} (h : s.Within t) (h' : t.Within u) : s.Within u :=
  ⟨h'.first.trans h.first, h.final.trans h'.final⟩

@[simp] theorem first_through (s t : Span) : (s.through t).first = s.first := rfl

@[simp] theorem final_through (s t : Span) : (s.through t).final = t.final := rfl

end Span

/-! ## Lexemes between positions -/

/-- The lexemes that are not layout follow one another from the position `lo` to the position
`hi`. -/
def Follow (lo : Position) : List Lexeme → Position → Prop
  | [], hi => lo ≤ hi
  | l :: ls, hi =>
    if l.token.isLayout then Follow lo ls hi
    else lo ≤ l.span.first ∧ l.span.first ≤ l.span.final ∧ Follow l.span.final ls hi

namespace Follow

variable {lo lo' hi hi' : Position} {l : Lexeme} {ls ls' : List Lexeme}

theorem cons (hl : l.token.isLayout = false) :
    Follow lo (l :: ls) hi ↔
      lo ≤ l.span.first ∧ l.span.first ≤ l.span.final ∧ Follow l.span.final ls hi := by
  rw [Follow, hl, if_neg Bool.false_ne_true]

theorem cons_layout (hl : l.token.isLayout = true) :
    Follow lo (l :: ls) hi ↔ Follow lo ls hi := by
  rw [Follow, if_pos hl]

theorem le : ∀ {lo hi : Position} {ls : List Lexeme}, Follow lo ls hi → lo ≤ hi
  | _, _, [], h => h
  | lo, hi, l :: ls, h => by
    cases hl : l.token.isLayout with
    | true => exact ((cons_layout hl).1 h).le
    | false =>
      obtain ⟨h₁, h₂, h₃⟩ := (cons hl).1 h
      exact h₁.trans (h₂.trans h₃.le)

theorem mono_left (hlo : lo' ≤ lo) : ∀ {ls : List Lexeme}, Follow lo ls hi → Follow lo' ls hi
  | [], h => hlo.trans h
  | l :: ls, h => by
    cases hl : l.token.isLayout with
    | true => exact (cons_layout hl).2 (mono_left hlo ((cons_layout hl).1 h))
    | false =>
      obtain ⟨h₁, h₂, h₃⟩ := (cons hl).1 h
      exact (cons hl).2 ⟨hlo.trans h₁, h₂, h₃⟩

/-- Lexemes behind lexemes. -/
theorem append_iff : ∀ {lo : Position} {ls : List Lexeme},
    Follow lo (ls ++ ls') hi ↔ ∃ mid, Follow lo ls mid ∧ Follow mid ls' hi
  | lo, [] => ⟨fun h => ⟨lo, le_refl lo, h⟩, fun ⟨_, h, h'⟩ => h'.mono_left h⟩
  | lo, l :: ls => by
    rw [List.cons_append]
    cases hl : l.token.isLayout with
    | true => simp only [cons_layout hl, append_iff]
    | false => simp only [cons hl, append_iff, exists_and_left, and_assoc]

/-- What comes behind a lexeme comes behind all that is before it. -/
theorem tail (h : Follow lo (l :: ls) hi) : Follow lo ls hi := by
  cases hl : l.token.isLayout with
  | true => exact (cons_layout hl).1 h
  | false =>
    obtain ⟨h₁, h₂, h₃⟩ := (cons hl).1 h
    exact h₃.mono_left (h₁.trans h₂)

theorem right (h : Follow lo (ls ++ ls') hi) : Follow lo ls' hi := by
  obtain ⟨mid, h₁, h₂⟩ := append_iff.1 h
  exact h₂.mono_left h₁.le

theorem mono_right (hhi : hi ≤ hi') : ∀ {lo : Position} {ls : List Lexeme},
    Follow lo ls hi → Follow lo ls hi'
  | _, [], h => le_trans h hhi
  | lo, l :: ls, h => by
    cases hl : l.token.isLayout with
    | true => exact (cons_layout hl).2 (mono_right hhi ((cons_layout hl).1 h))
    | false =>
      obtain ⟨h₁, h₂, h₃⟩ := (cons hl).1 h
      exact (cons hl).2 ⟨h₁, h₂, mono_right hhi h₃⟩

/-- Layout may be added anywhere. -/
theorem concat_layout (hl : l.token.isLayout = true) (h : Follow lo ls hi) :
    Follow lo (ls ++ [l]) hi :=
  append_iff.2 ⟨hi, h, (cons_layout hl).2 (le_refl hi)⟩

/-- A lexeme comes behind others if it begins where they end or further on. -/
theorem concat (h : Follow lo ls hi) (hhi : hi ≤ l.span.first) (hl : l.span.first ≤ l.span.final) :
    Follow lo (ls ++ [l]) l.span.final := by
  refine append_iff.2 ⟨hi, h, ?_⟩
  cases hlayout : l.token.isLayout with
  | true => exact (cons_layout hlayout).2 (hhi.trans hl)
  | false => exact (cons hlayout).2 ⟨hhi, hl, le_refl _⟩

end Follow

/-! ## The scanner -/

namespace Cursor

variable {cur entered : Cursor}

/-- Where the next character stands. -/
def position (cur : Cursor) : Position := toLex (cur.line, cur.col)

/-- The lexemes so far follow one another up to where the next character stands. -/
def Ordered (cur : Cursor) : Prop := Follow Span.root.first cur.emitted.reverse cur.position

theorem position_le_skip (cur : Cursor) (width : Nat) : cur.position ≤ (cur.skip width).position := by
  simp [position, skip, Prod.Lex.toLex_le_toLex]

theorem position_le_nextLine (cur : Cursor) : cur.position ≤ cur.nextLine.position := by
  simp [position, nextLine, Prod.Lex.toLex_le_toLex]

theorem Ordered.skip (h : cur.Ordered) (width : Nat) : (cur.skip width).Ordered :=
  Follow.mono_right (cur.position_le_skip width) h

theorem Ordered.nextLine (h : cur.Ordered) : cur.nextLine.Ordered :=
  Follow.mono_right cur.position_le_nextLine h

theorem Ordered.emit (h : cur.Ordered) (token : Token) (width : Nat) :
    (cur.emit token width).Ordered := by
  unfold Ordered Cursor.emit
  rw [List.reverse_cons]
  exact Follow.concat h (le_refl _) (position_le_skip cur width)

theorem Ordered.closeTo (h : cur.Ordered) (width : Nat) : (cur.closeTo width).Ordered := by
  have hdedents : ∀ (closed : List Nat) (emitted : List Lexeme),
      Follow Span.root.first emitted.reverse cur.position →
      Follow Span.root.first
        (closed.foldl (fun ls _ => ⟨.dedent, cur.span 0⟩ :: ls) emitted).reverse cur.position := by
    intro closed
    induction closed with
    | nil => exact fun _ h => h
    | cons _ closed ih =>
      intro emitted h
      refine ih _ ?_
      rw [List.reverse_cons]
      exact h.concat_layout rfl
  exact hdedents _ _ h

theorem Ordered.enter {zone : Zone} (h : cur.Ordered) (henter : zone.enter cur = .ok entered) :
    entered.Ordered := by
  obtain ⟨-, rfl⟩ | ⟨width, -, ⟨-, rfl⟩ | ⟨-, -, rfl⟩⟩ := Zone.enter_eq_ok henter
  · exact h
  · unfold Ordered
    rw [List.reverse_cons]
    exact Follow.concat_layout rfl h
  · exact h.closeTo width

theorem Ordered.breakLine (h : cur.Ordered) (zone : Zone) : (zone.breakLine cur).2.Ordered := by
  unfold Zone.breakLine
  split
  · exact h.nextLine
  · split
    · exact (h.emit .newline 1).nextLine
    · exact h.nextLine

theorem Ordered.endLine (h : cur.Ordered) : cur.endLine.Ordered := by
  unfold Cursor.endLine
  split
  · exact h
  · exact h
  · exact h.emit .newline 0

theorem Ordered.close (h : cur.Ordered) : ∃ hi, Follow Span.root.first cur.close hi :=
  ⟨_, (h.endLine.closeTo 0).emit .endOfInput 0⟩

end Cursor

theorem follow_scanFrom {zone : Zone} {cs : List Char} {cur : Cursor} {ls : List Lexeme}
    (hcur : cur.Ordered) (h : scanFrom zone cs cur = .ok ls) :
    ∃ hi, Follow Span.root.first ls hi := by
  fun_induction scanFrom zone cs cur with
  | case1 =>
    obtain rfl := Except.ok.inj h
    exact hcur.close
  | case2 zone cur rest next ih => exact ih (hcur.breakLine zone) h
  | case3 zone cur rest comment hne ih => exact ih (hcur.skip _) h
  | case4 zone cur c rest _ _ _ ih => exact ih (hcur.skip _) h
  | case5 => cases h
  | case6 => cases h
  | case7 zone cur c rest _ _ _ entered henter r hr ih => exact ih ((hcur.enter henter).emit _ _) h

/-- The lexemes of a text follow one another. -/
theorem follow_scan {source : String} {ls : List Lexeme} (h : scan source = .ok ls) :
    ∃ hi, Follow Span.root.first ls hi :=
  @follow_scanFrom _ _ {} _ (le_refl (toLex (1, 0) : Position)) h

end Stampline
