import Mathlib.Data.List.DropRight
import Stampline.Proofs.Token.Pieces
import Stampline.Proofs.Token.Shape

/-!
# Lexemes tile the text

A text is cut into tiles, each of them the text of one lexeme or a stretch between lexemes that no
token is read from. Tiles follow one another byte by byte, so that the places of lexemes can be
compared with the lines and the bytes of the text.
-/

namespace Stampline

/-! ## Lines and columns -/

/-- The line that stands behind the characters `before` of a text. -/
def lineBehind (before : List Char) : Nat := before.count '\n' + 1

/-- The bytes of that line that are among them. -/
def columnBehind (before : List Char) : Nat := byteWidth (before.rtakeWhile (· ≠ '\n'))

theorem lineBehind_append {before text : List Char} (h : '\n' ∉ text) :
    lineBehind (before ++ text) = lineBehind before := by
  simp [lineBehind, List.count_eq_zero_of_not_mem h]

theorem columnBehind_append {before : List Char} : ∀ {text : List Char}, '\n' ∉ text →
    columnBehind (before ++ text) = columnBehind before + byteWidth text
  | [], _ => by simp
  | c :: text, h => by
    have hc : c ≠ '\n' := fun hc => h (hc ▸ .head _)
    have htext : '\n' ∉ text := fun hmem => h (.tail _ hmem)
    rw [List.append_cons, columnBehind_append htext, byteWidth_cons, ← Nat.add_assoc]
    simp [columnBehind, hc]

theorem lineBehind_break (before : List Char) : lineBehind (before ++ ['\n']) = lineBehind before + 1 := by
  simp [lineBehind]

theorem columnBehind_break (before : List Char) : columnBehind (before ++ ['\n']) = 0 := by
  simp [columnBehind]

/-- A cursor stands behind the characters `before` of a text. -/
structure Cursor.StandsBehind (cur : Cursor) (before : List Char) : Prop where
  line : cur.line = lineBehind before
  col : cur.col = columnBehind before

namespace Cursor.StandsBehind

variable {cur : Cursor} {before text : List Char}

theorem skip (h : cur.StandsBehind before) (htext : '\n' ∉ text) :
    (cur.skip (byteWidth text)).StandsBehind (before ++ text) :=
  ⟨h.line.trans (lineBehind_append htext).symm, by
    rw [columnBehind_append htext, ← h.col]
    rfl⟩

theorem emit (h : cur.StandsBehind before) (htext : '\n' ∉ text) (t : Token) :
    (cur.emit t (byteWidth text)).StandsBehind (before ++ text) :=
  ⟨(h.skip htext).line, (h.skip htext).col⟩

theorem nextLine (h : cur.StandsBehind before) : cur.nextLine.StandsBehind (before ++ ['\n']) :=
  ⟨by rw [lineBehind_break, ← h.line]; rfl, by rw [columnBehind_break]; rfl⟩

theorem span (h : cur.StandsBehind before) (width : Nat) :
    cur.span width = ⟨lineBehind before, columnBehind before, lineBehind before,
      columnBehind before + width⟩ := by
  rw [← h.line, ← h.col]
  rfl

end Cursor.StandsBehind

/-! ## Tiles -/

/-- What a lexeme promises of the text that it is read from, which stands between two others. -/
structure Lexeme.StandsFor (l : Lexeme) (before text after : List Char) : Prop where
  /-- Its place is that of the text, which does not go beyond its line. -/
  span : l.span = ⟨lineBehind before, columnBehind before, lineBehind before,
    columnBehind before + byteWidth text⟩
  line : '\n' ∉ text ∨ l.token = .newline ∧ text = ['\n']
  /-- The text of a visible token is read as this token where it stands alone. -/
  alone : l.token.isVisible = true → ∃ ls, scan (String.ofList text) = .ok ls ∧
    ls.map (·.token) = [l.token, .newline, .endOfInput]
  /-- The value of a quoted text is what stands between the quotes, decoded. -/
  quoted : ∀ value, l.token = .text value → ∃ quote content,
    (quote = '\x22' ∨ quote = '\x27') ∧ text = quote :: (content ++ [quote]) ∧
      Decodes quote content value.toList ∧ value.toList.count '\uFFFD' = content.count '\uFFFD'
  newline : l.token = .newline → text = ['\n'] ∨ text = [] ∧ after = []
  empty : l.token = .indent ∨ l.token = .dedent ∨ l.token = .endOfInput → text = []

/-- A stretch of text that no token is read from: a blank, the end of a line, or a comment that goes
on to the end of its line. -/
inductive Gap (after : List Char) : List Char → Prop where
  | blank {c} (h : isBlank c = true) : Gap after [c]
  | lineBreak : Gap after ['\n']
  | comment {body} (hbody : '\n' ∉ body) (hafter : ∀ c ∈ after.head?, c = '\n') :
      Gap after ('#' :: body)

/-- A stretch of a text: where its first byte stands, its characters, and the lexeme that is read
from it, if it is no gap. -/
structure Tile where
  start : Nat
  text : List Char
  lexeme? : Option Lexeme

namespace Tile

/-- Where the first byte behind a tile stands. -/
def stop (tile : Tile) : Nat := tile.start + byteWidth tile.text

/-- A tile stands between two texts. -/
structure Fits (tile : Tile) (before after : List Char) : Prop where
  start : tile.start = byteWidth before
  lexeme : ∀ l ∈ tile.lexeme?, l.StandsFor before tile.text after
  gap : tile.lexeme? = none → Gap after tile.text

end Tile

/-- The characters of tiles. -/
def tiledText (tiles : List Tile) : List Char := tiles.flatMap (·.text)

/-- Tiles cover a text, and lexemes are read from them, each from its own. -/
structure Tiling (source : String) (ls : List Lexeme) (tiles : List Tile) : Prop where
  covers : source.toList = tiledText tiles
  lexemes : ls = tiles.filterMap (·.lexeme?)
  fits : ∀ front tile back, tiles = front ++ tile :: back → tile.Fits (tiledText front) (tiledText back)
  apart : tiles.Pairwise fun tile behind => tile.stop ≤ behind.start

/-- Tiles fit together behind the characters `before`. -/
def Fit (before : List Char) : List Tile → Prop
  | [] => True
  | tile :: tiles => tile.Fits before (tiledText tiles) ∧ Fit (before ++ tile.text) tiles

namespace Fit

variable {before : List Char} {tiles : List Tile}

theorem fits : ∀ {before : List Char} {tiles front back : List Tile} {tile : Tile},
    Fit before tiles → tiles = front ++ tile :: back →
      tile.Fits (before ++ tiledText front) (tiledText back)
  | before, _, [], back, tile, h, hsplit => by
    subst hsplit
    simpa [tiledText] using h.1
  | before, _, first :: front, back, tile, h, hsplit => by
    subst hsplit
    simpa [tiledText, List.append_assoc] using fits h.2 rfl

theorem start_le : ∀ {before : List Char} {tiles : List Tile}, Fit before tiles →
    ∀ tile ∈ tiles, byteWidth before ≤ tile.start
  | before, first :: tiles, h, tile, hmem => by
    rcases List.mem_cons.1 hmem with rfl | hmem
    · exact h.1.start.ge
    · have := start_le h.2 tile hmem
      rw [byteWidth_append] at this
      omega

theorem apart : ∀ {before : List Char} {tiles : List Tile}, Fit before tiles →
    tiles.Pairwise fun tile behind => tile.stop ≤ behind.start
  | _, [], _ => .nil
  | before, first :: tiles, h => by
    refine List.pairwise_cons.2 ⟨fun tile hmem => ?_, apart h.2⟩
    have := start_le h.2 tile hmem
    rwa [byteWidth_append, ← h.1.start] at this

end Fit

/-! ## What the scanner reads is tiled -/

/-- The characters `cs` behind `before` are cut into tiles that the lexemes `ls` are read from. -/
def Tiled (before cs : List Char) (ls : List Lexeme) : Prop :=
  ∃ tiles, cs = tiledText tiles ∧ ls = tiles.filterMap (·.lexeme?) ∧ Fit before tiles

namespace Tiled

variable {before cs : List Char} {l : Lexeme} {ls : List Lexeme}

theorem nil (before : List Char) : Tiled before [] [] := ⟨[], rfl, rfl, trivial⟩

theorem gap (text : List Char) (hgap : Gap cs text) (h : Tiled (before ++ text) cs ls) :
    Tiled before (text ++ cs) ls := by
  obtain ⟨tiles, rfl, rfl, hfit⟩ := h
  exact ⟨⟨byteWidth before, text, none⟩ :: tiles, rfl, rfl,
    ⟨rfl, fun l hl => (Option.not_mem_none l hl).elim, fun _ => hgap⟩, hfit⟩

theorem lexeme (text : List Char) (hl : l.StandsFor before text cs) (h : Tiled (before ++ text) cs ls) :
    Tiled before (text ++ cs) (l :: ls) := by
  obtain ⟨tiles, rfl, rfl, hfit⟩ := h
  refine ⟨⟨byteWidth before, text, some l⟩ :: tiles, rfl, rfl, ⟨rfl, fun m hm => ?_, fun h => ?_⟩, hfit⟩
  · obtain rfl := Option.some.inj hm
    exact hl
  · cases h

/-- A comment goes on to the end of its line. -/
theorem comment {rest : List Char}
    (h : Tiled (before ++ '#' :: rest.takeWhile (· ≠ '\n')) (rest.dropWhile (· ≠ '\n')) ls) :
    Tiled before ('#' :: rest) ls := by
  have hafter : ∀ c ∈ (rest.dropWhile (· ≠ '\n')).head?, c = '\n' := fun c hc => by
    have := List.head?_dropWhile_not (· ≠ '\n') rest
    rw [Option.mem_def.1 hc] at this
    simpa using this
  have hrest : '#' :: rest.takeWhile (· ≠ '\n') ++ rest.dropWhile (· ≠ '\n') = '#' :: rest := by
    rw [List.cons_append, List.takeWhile_append_dropWhile]
  exact hrest ▸ gap _ (.comment (not_mem_takeWhile (by decide) rest) hafter) h

/-- Lexemes without a text of their own. -/
theorem lexemes : ∀ {new : List Lexeme}, (∀ l ∈ new, l.StandsFor before [] cs) →
    Tiled before cs ls → Tiled before cs (new ++ ls)
  | [], _, h => h
  | l :: new, hnew, h => by
    have htail := lexemes (fun m hm => hnew m (.tail _ hm)) h
    exact lexeme [] (hnew l (.head _)) (by rwa [List.append_nil])

end Tiled

/-- Layout and the end of the input take no text. -/
theorem standsFor_empty {l : Lexeme} {cur : Cursor} {before after : List Char}
    (hcur : cur.StandsBehind before) (hspan : l.span = cur.span 0) (hl : l.token.isVisible = false)
    (hnewline : l.token = .newline → after = []) : l.StandsFor before [] after where
  span := hspan.trans (hcur.span 0)
  line := .inl (List.not_mem_nil)
  alone := fun h => by simp [hl] at h
  quoted := fun value h => by simp [h, Token.isVisible] at hl
  newline := fun h => .inr ⟨rfl, hnewline h⟩
  empty := fun _ => rfl

theorem standsFor_layout {l : Lexeme} {cur : Cursor} {before : List Char}
    (hcur : cur.StandsBehind before) (hspan : l.span = cur.span 0)
    (hl : l.token = .indent ∨ l.token = .dedent) (after : List Char) : l.StandsFor before [] after := by
  refine standsFor_empty hcur hspan ?_ fun hnewline => ?_
  · rcases hl with hl | hl <;> rw [hl] <;> rfl
  · rcases hl with hl | hl <;> rw [hl] at hnewline <;> cases hnewline

theorem tokens_close_emit {t : Token} (ht : t.isVisible = true) (width : Nat) :
    ((({} : Cursor).emit t width).close).map (·.token) = [t, .newline, .endOfInput] := by
  cases t <;> first | rfl | cases ht

/-- The piece of a token is read as this token where it stands alone. -/
theorem PieceOf.scan {c : Char} {piece : List Char} {r : Reading} (hc : BeginsToken c)
    (h : PieceOf c piece r) : ∃ ls, Stampline.scan (String.ofList (c :: piece)) = .ok ls ∧
      ls.map (·.token) = [r.token, .newline, .endOfInput] := by
  have hread := h.read [] (.inr halts_nil)
  rw [List.append_nil] at hread
  refine ⟨(({} : Cursor).emit r.token r.width).close, ?_,
    tokens_close_emit (readToken_isVisible hread) _⟩
  rw [Stampline.scan, String.toList_ofList, scanFrom_token hc rfl hread, scanFrom]
  rfl

/-- A token stands for its piece. -/
theorem standsFor_piece {c : Char} {piece before after : List Char} {r : Reading} {cur : Cursor}
    (hc : BeginsToken c) (hpiece : PieceOf c piece r) (hcur : cur.StandsBehind before) :
    (⟨r.token, cur.span r.width⟩ : Lexeme).StandsFor before (c :: piece) after := by
  have hvisible : r.token.isVisible = true :=
    readToken_isVisible (hpiece.read _ (stopsLike_refl r.rest))
  have hline : '\n' ∉ c :: piece := fun h => by
    rcases List.mem_cons.1 h with h | h
    · exact hc.1 h.symm
    · exact hpiece.line h
  refine ⟨?_, .inl hline, fun _ => hpiece.scan hc, fun value hvalue => ?_, fun h => ?_, fun h => ?_⟩
  · rw [hcur.span, hpiece.width]
  · obtain ⟨hquote, content, rfl, hdecodes⟩ := hpiece.text value hvalue
    exact ⟨c, content, hquote, rfl, hdecodes, hdecodes.count_replacement⟩
  · replace h : r.token = .newline := h
    simp [h, Token.isVisible] at hvisible
  · replace h : r.token = .indent ∨ r.token = .dedent ∨ r.token = .endOfInput := h
    rcases h with h | h | h <;> simp [h, Token.isVisible] at hvisible

/-- Where a line is entered, blocks are opened or closed at one empty place. -/
theorem Cursor.emitted_enter {zone : Zone} {cur entered : Cursor}
    (henter : zone.enter cur = .ok entered) : ∃ layout : List Lexeme,
      entered.emitted.reverse = cur.emitted.reverse ++ layout ∧ entered.line = cur.line ∧
        entered.col = cur.col ∧
        ∀ l ∈ layout, (l.token = .indent ∨ l.token = .dedent) ∧ l.span = cur.span 0 := by
  obtain ⟨-, rfl⟩ | ⟨width, -, ⟨-, rfl⟩ | ⟨-, -, rfl⟩⟩ := Zone.enter_eq_ok henter
  · exact ⟨[], (List.append_nil _).symm, rfl, rfl, fun l hl => (List.not_mem_nil hl).elim⟩
  · refine ⟨[⟨.indent, cur.span 0⟩], List.reverse_cons, rfl, rfl, fun l hl => ?_⟩
    obtain rfl := List.mem_singleton.1 hl
    exact ⟨.inl rfl, rfl⟩
  · refine ⟨_, cur.emitted_closeTo width, rfl, rfl, fun l hl => ?_⟩
    obtain rfl := List.eq_of_mem_replicate hl
    exact ⟨.inr rfl, rfl⟩

/-- A break is a gap or ends a logical line. -/
theorem Cursor.StandsBehind.breakLine {cur : Cursor} {before : List Char}
    (hcur : cur.StandsBehind before) (zone : Zone) :
    (zone.breakLine cur).2.StandsBehind (before ++ ['\n']) ∧
      ((zone.breakLine cur).2.emitted = cur.emitted ∨
        (zone.breakLine cur).2.emitted = ⟨.newline, cur.span 1⟩ :: cur.emitted) := by
  unfold Zone.breakLine
  split
  · exact ⟨hcur.nextLine, .inl rfl⟩
  · split
    · exact ⟨⟨hcur.nextLine.line, hcur.nextLine.col⟩, .inr rfl⟩
    · exact ⟨hcur.nextLine, .inl rfl⟩

theorem standsFor_newline {cur : Cursor} {before : List Char} (hcur : cur.StandsBehind before)
    (after : List Char) :
    (⟨.newline, cur.span 1⟩ : Lexeme).StandsFor before ['\n'] after where
  span := hcur.span 1
  line := .inr ⟨rfl, rfl⟩
  alone := fun h => by cases h
  quoted := fun value h => by cases h
  newline := fun _ => .inl rfl
  empty := fun h => by rcases h with h | h | h <;> cases h

theorem tiled_scanFrom {zone : Zone} {cs : List Char} {cur : Cursor} {ls : List Lexeme}
    (h : scanFrom zone cs cur = .ok ls) : ∀ {before : List Char}, cur.StandsBehind before →
      ∃ new, ls = cur.emitted.reverse ++ new ∧ Tiled before cs new := by
  fun_induction scanFrom zone cs cur with
  | case1 zone cur =>
    intro before hcur
    obtain rfl := Except.ok.inj h
    obtain ⟨closing, hclose, hclosing⟩ := cur.close_eq
    refine ⟨closing ++ [], by rw [List.append_nil, hclose], .lexemes (fun l hl => ?_) (.nil before)⟩
    exact standsFor_empty hcur (hclosing l hl).2 (hclosing l hl).1 fun _ => rfl
  | case2 zone cur rest next ih =>
    intro before hcur
    obtain ⟨hnext, hemitted⟩ := hcur.breakLine zone
    obtain ⟨new, hnew, htiled⟩ := ih h hnext
    rcases hemitted with hemitted | hemitted
    · exact ⟨new, hemitted ▸ hnew, .gap ['\n'] .lineBreak htiled⟩
    · refine ⟨⟨.newline, cur.span 1⟩ :: new, ?_,
        .lexeme ['\n'] (standsFor_newline hcur rest) htiled⟩
      rw [hnew, hemitted, List.reverse_cons, List.append_assoc, List.singleton_append]
  | case3 zone cur rest comment hne ih =>
    intro before hcur
    have hcomment : '\n' ∉ '#' :: comment :=
      List.not_mem_cons_of_ne_of_not_mem (by decide) (not_mem_takeWhile (by decide) rest)
    obtain ⟨new, hnew, htiled⟩ := ih h (hcur.skip hcomment)
    exact ⟨new, hnew, .comment htiled⟩
  | case4 zone cur c rest hline _ hblank ih =>
    intro before hcur
    have htext : '\n' ∉ [c] := by simpa using Ne.symm hline
    have hsize : c.utf8Size = 1 := by
      simp only [isBlank, Bool.or_eq_true, beq_iff_eq] at hblank
      rcases hblank with (rfl | rfl) | rfl <;> rfl
    have hskip := hcur.skip htext
    rw [byteWidth_cons, hsize] at hskip
    obtain ⟨new, hnew, htiled⟩ := ih h hskip
    exact ⟨new, hnew, .gap [c] (.blank hblank) htiled⟩
  | case5 => cases h
  | case6 => cases h
  | case7 zone cur c rest hline hhash hblank entered henter r hr ih =>
    intro before hcur
    have hc : BeginsToken c := ⟨hline, hhash, by simpa using hblank⟩
    obtain ⟨piece, rfl, hpiece⟩ := exists_pieceOf hline hr
    -- What entering the line emits stands in front of the token and takes no text.
    obtain ⟨layout, hemitted, hentered, hcol, hlayout⟩ := Cursor.emitted_enter henter
    have hstands : entered.StandsBehind before := ⟨hentered.trans hcur.line, hcol.trans hcur.col⟩
    have htext : '\n' ∉ c :: piece := fun hmem => by
      rcases List.mem_cons.1 hmem with hmem | hmem
      · exact hline hmem.symm
      · exact hpiece.line hmem
    rw [hpiece.width] at ih h
    obtain ⟨new, hnew, htiled⟩ := ih h (hstands.emit htext r.token)
    refine ⟨layout ++ ⟨r.token, entered.span r.width⟩ :: new, ?_, .lexemes
      (fun l hl => standsFor_layout hcur (hlayout l hl).2 (hlayout l hl).1 _)
      (.lexeme (c :: piece) (standsFor_piece hc hpiece hstands) htiled)⟩
    rw [hnew, ← List.append_assoc, ← hemitted, hpiece.width]
    simp [Cursor.emit]

/-- The lexemes of a text tile it. -/
theorem tiling_of_scan {source : String} {ls : List Lexeme} (h : scan source = .ok ls) :
    ∃ tiles, Tiling source ls tiles := by
  have hstart : ({} : Cursor).StandsBehind [] := ⟨rfl, rfl⟩
  obtain ⟨new, hnew, tiles, hcovers, hlexemes, hfit⟩ := tiled_scanFrom h hstart
  exact ⟨tiles, hcovers, hnew.trans hlexemes, fun front tile back => hfit.fits, hfit.apart⟩

/-- A call over two lines, with a comment, an escape and characters of several bytes. -/
def scatteredSource : String := "if wide: # ä\r\n\tprint('\\té', # ß\n  1_0)"

/-- The lexemes of a text with comments, escapes and characters of several bytes tile it. -/
theorem tiling_of_scan_scatteredSource : ∃ ls, scan scatteredSource = .ok ls ∧
    ∃ tiles, Tiling scatteredSource ls tiles := by
  have hscanned : (scan scatteredSource).toOption.isSome = true := by decide +kernel
  cases hscan : scan scatteredSource with
  | error e => simp [hscan, Except.toOption] at hscanned
  | ok ls => exact ⟨ls, rfl, tiling_of_scan hscan⟩

end Stampline
