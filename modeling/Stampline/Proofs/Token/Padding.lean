import Stampline.Proofs.Token.Pieces
import Stampline.Proofs.Token.Shape

/-!
# Blanks, comments and line breaks

A text may be padded: blanks and comments are added at the ends of lines, and lines that hold nothing
else are added between lines. Two scanners, one of the text and one of the padded text, go side by
side from line to line and read the same tokens (`scan_padded`). Where no line is added, visible
tokens keep their places.
-/

namespace Stampline

/-! ## Padded texts -/

/-- Blanks, and a comment behind them if there is one. -/
inductive Filler : List Char → Prop where
  | nil : Filler []
  | blank {c pad} (hc : isBlank c = true) (h : Filler pad) : Filler (c :: pad)
  | comment {body} (h : '\n' ∉ body) : Filler ('#' :: body)

/-- A text and its padded form. Lines are added if `lines` says so: in front of a line, or behind a
last line that had no end. -/
inductive Padded (lines : Bool) : List Char → List Char → Prop where
  | last {cs pad} (hline : '\n' ∉ cs) (hpad : Filler pad) : Padded lines cs (cs ++ pad)
  | line {cs pad rest rest'} (hline : '\n' ∉ cs) (hpad : Filler pad)
      (h : Padded lines rest rest') : Padded lines (cs ++ '\n' :: rest) (cs ++ (pad ++ '\n' :: rest'))
  | inserted {pad cs cs'} (hlines : lines = true) (hpad : Filler pad) (h : Padded lines cs cs') :
      Padded lines cs (pad ++ '\n' :: cs')
  | behind {cs pad tail} (hlines : lines = true) (hline : '\n' ∉ cs) (hpad : Filler pad)
      (h : Padded lines [] tail) : Padded lines cs (cs ++ (pad ++ '\n' :: tail))

theorem Filler.not_mem {pad : List Char} (h : Filler pad) : '\n' ∉ pad := by
  induction h with
  | nil => simp
  | blank hc _ ih =>
    refine fun hmem => (List.mem_cons.1 hmem).elim (fun heq => ?_) ih
    subst heq
    revert hc
    decide
  | comment h => simpa using h

/-- A line is over: the text ends, or a line break comes next. -/
def EndsLine (stop : List Char) : Prop := ∀ c ∈ stop.head?, c = '\n'

theorem endsLine_nil : EndsLine [] := fun _ h => (Option.not_mem_none _ h).elim

theorem endsLine_break (cs : List Char) : EndsLine ('\n' :: cs) := fun _ h => (Option.some.inj h).symm

theorem EndsLine.halts {stop : List Char} (h : EndsLine stop) : Halts stop := fun c hc => by
  rw [h c hc]
  decide

theorem Filler.halts {pad stop : List Char} (h : Filler pad) (hstop : EndsLine stop) :
    Halts (pad ++ stop) := by
  cases h with
  | nil => exact hstop.halts
  | blank hc _ =>
    refine halts_cons ?_ ?_
    · simp only [isBlank, Bool.or_eq_true, beq_iff_eq] at hc
      rcases hc with (rfl | rfl) | rfl <;> decide
    · rintro rfl
      revert hc
      decide
  | comment _ => exact halts_cons (by decide) (by decide)

/-! ## One step of the scanner -/

theorem beginsToken_or {c : Char} (hline : c ≠ '\n') : c = '#' ∨ isBlank c = true ∨ BeginsToken c := by
  by_cases hhash : c = '#'
  · exact .inl hhash
  · cases hblank : isBlank c with
    | true => exact .inr (.inl rfl)
    | false => exact .inr (.inr ⟨hline, hhash, hblank⟩)

theorem scanFrom_break (zone : Zone) (cs : List Char) (cur : Cursor) :
    scanFrom zone ('\n' :: cs) cur = scanFrom (zone.breakLine cur).1 cs (zone.breakLine cur).2 := by
  rw [scanFrom, if_pos rfl]

theorem scanFrom_isBlank {c : Char} (hc : isBlank c = true) (zone : Zone) (cs : List Char)
    (cur : Cursor) : scanFrom zone (c :: cs) cur = scanFrom (zone.afterBlank c) cs (cur.skip 1) := by
  have hline : c ≠ '\n' := by rintro rfl; revert hc; decide
  have hhash : c ≠ '#' := by rintro rfl; revert hc; decide
  rw [scanFrom, if_neg hline, if_neg hhash, if_pos hc]

/-- A comment is skipped up to the end of its line. -/
theorem scanFrom_comment {body stop : List Char} (hbody : '\n' ∉ body) (hstop : EndsLine stop)
    (zone : Zone) (cur : Cursor) : scanFrom zone ('#' :: (body ++ stop)) cur =
      scanFrom zone.afterComment stop (cur.skip (1 + byteWidth body)) := by
  have hspan : (body ++ stop).takeWhile (fun c => decide (c ≠ '\n')) = body ∧
      (body ++ stop).dropWhile (fun c => decide (c ≠ '\n')) = stop :=
    Spells.span_append (fun c hc => decide_eq_true fun h => hbody (h ▸ hc))
      fun c hc => by simpa using hstop c hc
  rw [scanFrom, if_neg (by decide), if_pos rfl]
  simp only [hspan.1, hspan.2]

/-- Where a token begins and the text is scanned, the token is read. -/
theorem scanFrom_eq_ok {zone : Zone} {c : Char} {cs : List Char} {cur : Cursor} {ls : List Lexeme}
    (hc : BeginsToken c) (h : scanFrom zone (c :: cs) cur = .ok ls) :
    ∃ entered r, zone.enter cur = .ok entered ∧ readToken c cs = .ok r ∧
      scanFrom .body r.rest (entered.emit r.token r.width) = .ok ls := by
  rw [scanFrom, if_neg hc.1, if_neg hc.2.1, if_neg (by simp [hc.2.2])] at h
  cases henter : zone.enter cur with
  | error e =>
    rw [henter] at h
    cases h
  | ok entered =>
    rw [henter] at h
    dsimp only at h
    split at h
    · cases h
    · rename_i r hr
      exact ⟨entered, r, rfl, hr, h⟩

namespace Zone

/-- Whether the scanner stands in the blanks at the start of a line. -/
def atMargin : Zone → Bool
  | margin _ => true
  | body => false

@[simp] theorem atMargin_afterBlank (c : Char) (zone : Zone) :
    (zone.afterBlank c).atMargin = zone.atMargin := by
  cases zone with
  | margin width =>
    unfold afterBlank
    dsimp only
    split <;> rfl
  | body => rfl

@[simp] theorem atMargin_afterComment (zone : Zone) : zone.afterComment.atMargin = zone.atMargin := by
  cases zone <;> rfl

/-- Whether a line is begun in a zone: at the margin, or within parentheses. -/
def BeginsLine (cur : Cursor) (zone : Zone) : Prop := zone = margin 0 ∨ zone = body ∧ cur.depth ≠ 0

theorem beginsLine_breakLine (zone : Zone) (cur : Cursor) :
    (zone.breakLine cur).1.BeginsLine (zone.breakLine cur).2 := by
  cases zone with
  | margin width => exact .inl rfl
  | body =>
    unfold breakLine
    dsimp only
    split
    · exact .inl rfl
    · rename_i hdepth
      exact .inr ⟨rfl, hdepth⟩

/-- A line of padding ends where it began. -/
theorem BeginsLine.breakLine {zone zone' : Zone} {cur cur' : Cursor} (h : zone.BeginsLine cur)
    (hzone : zone'.atMargin = zone.atMargin) (hdepth : cur'.depth = cur.depth) :
    zone'.breakLine cur' = (zone, cur'.nextLine) := by
  rcases h with rfl | ⟨rfl, hopen⟩
  · cases zone' with
    | margin _ => rfl
    | body => cases hzone
  · cases zone' with
    | margin _ => cases hzone
    | body => exact if_neg (hdepth ▸ hopen)

end Zone

/-- Filler at the end of a line is skipped. -/
theorem Filler.scanFrom {pad stop : List Char} (h : Filler pad) (hstop : EndsLine stop) :
    ∀ (zone : Zone) (cur : Cursor), ∃ zone' width,
      Stampline.scanFrom zone (pad ++ stop) cur = Stampline.scanFrom zone' stop (cur.skip width) ∧
        zone'.atMargin = zone.atMargin := by
  induction h with
  | nil => exact fun zone cur => ⟨zone, 0, rfl, rfl⟩
  | @blank c pad hc _ ih =>
    intro zone cur
    obtain ⟨zone', width, hscan, hzone⟩ := ih (zone.afterBlank c) (cur.skip 1)
    refine ⟨zone', 1 + width, ?_, by simpa using hzone⟩
    rw [List.cons_append, scanFrom_isBlank hc, hscan]
    simp [Cursor.skip, Nat.add_assoc]
  | @comment body hbody =>
    intro zone cur
    exact ⟨zone.afterComment, 1 + byteWidth body, scanFrom_comment hbody hstop zone cur, by simp⟩

/-! ## Two scanners side by side -/

/-- Lexemes of a text and of its padded form: the tokens are the same, and the places of visible
tokens are unless lines are added. -/
structure Lexeme.Beside (lines : Bool) (l l' : Lexeme) : Prop where
  token : l'.token = l.token
  span : lines = false → l.token.isVisible = true → l'.span = l.span

theorem Lexeme.Beside.invisible {lines : Bool} {t : Token} (ht : t.isVisible = false)
    (span span' : Span) : Lexeme.Beside lines ⟨t, span⟩ ⟨t, span'⟩ :=
  ⟨rfl, fun _ h => by simp [ht] at h⟩

theorem map_token_of_beside {lines : Bool} {ls ls' : List Lexeme}
    (h : List.Forall₂ (Lexeme.Beside lines) ls ls') : ls'.map (·.token) = ls.map (·.token) := by
  induction h with
  | nil => rfl
  | cons hl _ ih => rw [List.map_cons, List.map_cons, hl.token, ih]

/-- Where lines are added, all that counts are the tokens. -/
theorem beside_of_map_token : ∀ {ls ls' : List Lexeme}, ls'.map (·.token) = ls.map (·.token) →
    List.Forall₂ (Lexeme.Beside true) ls ls'
  | [], ls', h => by
    obtain rfl := List.map_eq_nil_iff.1 h
    exact .nil
  | l :: ls, ls', h => by
    obtain ⟨l', ls', rfl, hl, hls⟩ := List.map_eq_cons_iff.1 h
    exact .cons ⟨hl, fun h => by cases h⟩ (beside_of_map_token hls)

namespace Cursor

/-- Two scanners stand side by side. -/
structure Beside (lines : Bool) (cur cur' : Cursor) : Prop where
  depth : cur'.depth = cur.depth
  indents : cur'.indents = cur.indents
  emitted : List.Forall₂ (Lexeme.Beside lines) cur.emitted cur'.emitted
  line : lines = false → cur'.line = cur.line

/-- Two scanners have read as many bytes of their lines, unless lines are added. -/
def Abreast (lines : Bool) (cur cur' : Cursor) : Prop := lines = false → cur'.col = cur.col

variable {lines : Bool} {cur cur' entered : Cursor}

namespace Beside

theorem skip (h : Beside lines cur cur') (width width' : Nat) :
    Beside lines (cur.skip width) (cur'.skip width') := ⟨h.depth, h.indents, h.emitted, h.line⟩

theorem nextLine (h : Beside lines cur cur') : Beside lines cur.nextLine cur'.nextLine :=
  ⟨h.depth, h.indents, h.emitted, fun hlines => congrArg (· + 1) (h.line hlines)⟩

theorem emit (h : Beside lines cur cur') (habreast : Abreast lines cur cur') (t : Token)
    (width : Nat) : Beside lines (cur.emit t width) (cur'.emit t width) := by
  refine ⟨congrArg (depthAfter · t) h.depth, h.indents, .cons ⟨rfl, fun hlines _ => ?_⟩ h.emitted,
    h.line⟩
  simp only [Cursor.span, h.line hlines, habreast hlines]

/-- A token that is not visible may stand elsewhere. -/
theorem emit_invisible (h : Beside lines cur cur') {t : Token} (ht : t.isVisible = false)
    (width width' : Nat) : Beside lines (cur.emit t width) (cur'.emit t width') :=
  ⟨congrArg (depthAfter · t) h.depth, h.indents, .cons (.invisible ht _ _) h.emitted, h.line⟩

theorem closeTo (h : Beside lines cur cur') (width : Nat) :
    Beside lines (cur.closeTo width) (cur'.closeTo width) := by
  have hdedents : ∀ (closed : List Nat) {emitted emitted' : List Lexeme},
      List.Forall₂ (Lexeme.Beside lines) emitted emitted' →
        List.Forall₂ (Lexeme.Beside lines)
          (closed.foldl (fun ls _ => ⟨.dedent, cur.span 0⟩ :: ls) emitted)
          (closed.foldl (fun ls _ => ⟨.dedent, cur'.span 0⟩ :: ls) emitted') := by
    intro closed
    induction closed with
    | nil => exact fun h => h
    | cons _ closed ih => exact fun h => ih (.cons (.invisible rfl _ _) h)
  refine ⟨h.depth, congrArg (List.dropWhile _) h.indents, ?_, h.line⟩
  unfold Cursor.closeTo
  rw [h.indents]
  exact hdedents _ h.emitted

/-- Both scanners enter a line in the same way. -/
theorem enter (h : Beside lines cur cur') {zone : Zone} (henter : zone.enter cur = .ok entered) :
    ∃ entered', zone.enter cur' = .ok entered' ∧ Beside lines entered entered' ∧
      entered.col = cur.col ∧ entered'.col = cur'.col := by
  obtain ⟨rfl, rfl⟩ | ⟨width, rfl, ⟨hlt, rfl⟩ | ⟨hlt, hwidth, rfl⟩⟩ := Zone.enter_eq_ok henter
  · exact ⟨cur', rfl, h, rfl, rfl⟩
  · rw [← h.indents] at hlt
    exact ⟨_, if_pos hlt, ⟨h.depth, congrArg (width :: ·) h.indents, .cons (.invisible rfl _ _)
      h.emitted, h.line⟩, rfl, rfl⟩
  · have hclosed := h.closeTo width
    rw [← h.indents] at hlt
    rw [← hclosed.indents] at hwidth
    exact ⟨_, (if_neg hlt).trans (if_pos hwidth), hclosed, rfl, rfl⟩

/-- Both scanners break a line in the same way. -/
theorem breakLine (h : Beside lines cur cur') {zone zone' : Zone}
    (hzone : zone'.atMargin = zone.atMargin) :
    (zone'.breakLine cur').1 = (zone.breakLine cur).1 ∧
      Beside lines (zone.breakLine cur).2 (zone'.breakLine cur').2 ∧
      Abreast lines (zone.breakLine cur).2 (zone'.breakLine cur').2 := by
  cases zone with
  | margin width =>
    cases zone' with
    | margin width' => exact ⟨rfl, h.nextLine, fun _ => rfl⟩
    | body => cases hzone
  | body =>
    cases zone' with
    | margin width' => cases hzone
    | body =>
      unfold Zone.breakLine
      dsimp only
      rw [h.depth]
      split
      · exact ⟨rfl, (h.emit_invisible rfl 1 1).nextLine, fun _ => rfl⟩
      · exact ⟨rfl, h.nextLine, fun _ => rfl⟩

theorem endLine (h : Beside lines cur cur') : Beside lines cur.endLine cur'.endLine := by
  have htokens := map_token_of_beside h.emitted
  unfold Cursor.endLine
  split
  · rename_i hnil
    rw [hnil] at htokens
    rw [List.map_eq_nil_iff.1 htokens]
    exact h
  · rename_i span ls hnewline
    rw [hnewline, List.map_cons] at htokens
    obtain ⟨⟨token, span'⟩, ls', hls', rfl, -⟩ := List.map_eq_cons_iff.1 htokens
    rw [hls']
    exact h
  · rename_i hnil hnewline
    split
    · rename_i hnil'
      rw [hnil'] at htokens
      exact absurd (List.map_eq_nil_iff.1 htokens.symm) hnil
    · rename_i span' ls' hnewline'
      rw [hnewline', List.map_cons] at htokens
      obtain ⟨⟨token, span⟩, ls, hls, rfl, -⟩ := List.map_eq_cons_iff.1 htokens.symm
      exact absurd hls (hnewline span ls)
    · exact h.emit_invisible rfl 0 0

theorem close (h : Beside lines cur cur') :
    List.Forall₂ (Lexeme.Beside lines) cur.close cur'.close :=
  List.rel_reverse ((h.endLine.closeTo 0).emit_invisible rfl 0 0).emitted

end Beside

/-- A line break in front of the end of the input makes no difference. -/
theorem Poised.close_breakLine {zone : Zone} (h : Poised zone cur) :
    (zone.breakLine cur).2.close.map (·.token) = cur.close.map (·.token) := by
  have hnext : cur.nextLine.close.map (·.token) = cur.close.map (·.token) :=
    map_token_of_beside (Beside.close ⟨rfl, rfl, beside_of_map_token rfl, fun h => by cases h⟩)
  cases zone with
  | margin width => exact hnext
  | body =>
    unfold Zone.breakLine
    dsimp only
    split
    · obtain ⟨t, hlast, ht⟩ := h.behind
      rw [Cursor.tokens, List.getLast?_map, List.getLast?_reverse, Option.map_eq_some_iff] at hlast
      obtain ⟨⟨token, span⟩, hhead, rfl⟩ := hlast
      obtain ⟨ls, hls⟩ := List.head?_eq_some_iff.1 hhead
      have hend : cur.close = (cur.emit .newline 0).close := by
        have hline : cur.endLine = cur.emit .newline 0 := by
          unfold Cursor.endLine
          rw [hls]
          cases token <;> first | rfl | cases ht
        rw [Cursor.close, hline]
        rfl
      rw [hend]
      exact map_token_of_beside (Beside.close ⟨rfl, rfl, beside_of_map_token rfl, fun h => by cases h⟩)
    · exact hnext

end Cursor

/-! ## From line to line -/

/-- The scanner has read a line and its padded form. -/
def LineRead (lines : Bool) (stop stop' : List Char) (ls : List Lexeme)
    (padded : Except ScanError (List Lexeme)) : Prop :=
  ∃ zone zone' cur cur', scanFrom zone stop cur = .ok ls ∧ padded = scanFrom zone' stop' cur' ∧
    zone'.atMargin = zone.atMargin ∧ Cursor.Poised zone cur ∧ Cursor.Beside lines cur cur'

/-- A piece of a line does not go beyond its end. -/
theorem split_piece {piece cs rest stop : List Char} (hpiece : '\n' ∉ piece) (hstop : EndsLine stop)
    (h : cs ++ stop = piece ++ rest) : ∃ behind, cs = piece ++ behind ∧ rest = behind ++ stop := by
  rcases List.append_eq_append_iff.1 h with ⟨inner, hinner, hrest⟩ | ⟨inner, hinner, hrest⟩
  · cases inner with
    | nil => exact ⟨[], by simpa using hinner.symm, by simpa using hrest.symm⟩
    | cons c inner =>
      obtain rfl := hstop c (by rw [hrest]; rfl)
      exact absurd (hinner ▸ List.mem_append_right cs (.head inner)) hpiece
  · exact ⟨inner, hinner, hrest⟩

/-- What stops a piece in a line stops it in the padded line. -/
theorem stopsLike_padded {behind pad stop stop' : List Char} (hpad : Filler pad)
    (hstop' : EndsLine stop') : StopsLike (behind ++ stop) (behind ++ (pad ++ stop')) := by
  cases behind with
  | nil => exact .inr (hpad.halts hstop')
  | cons c behind => exact .inl rfl

theorem lineRead_of_scanFrom {lines : Bool} {pad stop stop' : List Char} {ls : List Lexeme}
    (hpad : Filler pad) (hstop : EndsLine stop) (hstop' : EndsLine stop') :
    ∀ (n : Nat) {cs : List Char} {zone : Zone} {cur cur' : Cursor}, cs.length ≤ n → '\n' ∉ cs →
      Cursor.Poised zone cur → Cursor.Beside lines cur cur' → Cursor.Abreast lines cur cur' →
      scanFrom zone (cs ++ stop) cur = .ok ls →
        LineRead lines stop stop' ls (scanFrom zone (cs ++ (pad ++ stop')) cur')
  | n, [], zone, cur, cur', _, _, hpoised, hbeside, _, h => by
    obtain ⟨zone', width, hscan, hzone⟩ := hpad.scanFrom hstop' zone cur'
    exact ⟨zone, zone', cur, cur'.skip width, h, hscan, hzone, hpoised, hbeside.skip 0 width⟩
  | 0, c :: cs, _, _, _, hlength, _, _, _, _, _ => absurd hlength (Nat.not_succ_le_zero _)
  | n + 1, c :: cs, zone, cur, cur', hlength, hline, hpoised, hbeside, habreast, h => by
    have hc : c ≠ '\n' := fun hc => hline (hc ▸ .head cs)
    have hcs : '\n' ∉ cs := fun hmem => hline (.tail c hmem)
    rw [List.cons_append] at h ⊢
    rcases beginsToken_or hc with rfl | hblank | hbegins
    · have hbody : '\n' ∉ cs ++ pad := fun hmem =>
        (List.mem_append.1 hmem).elim hcs hpad.not_mem
      rw [scanFrom_comment hcs hstop] at h
      rw [← List.append_assoc, scanFrom_comment hbody hstop']
      exact ⟨zone.afterComment, zone.afterComment, _, _, h, rfl, rfl, hpoised.afterComment.skip _,
        hbeside.skip _ _⟩
    · rw [scanFrom_isBlank hblank] at h ⊢
      exact lineRead_of_scanFrom hpad hstop hstop' n (Nat.le_of_succ_le_succ hlength) hcs
        ((hpoised.afterBlank c).skip 1) (hbeside.skip 1 1)
        (fun hlines => congrArg (· + 1) (habreast hlines)) h
    · obtain ⟨entered, r, henter, hr, hrest⟩ := scanFrom_eq_ok hbegins h
      obtain ⟨piece, hpiece, hread⟩ := exists_pieceOf hc hr
      obtain ⟨behind, rfl, hbehind⟩ := split_piece hread.line hstop hpiece
      obtain ⟨entered', henter', hentered, hcol, hcol'⟩ := hbeside.enter henter
      have hr' := hread.read (behind ++ (pad ++ stop'))
        (hbehind ▸ stopsLike_padded hpad hstop')
      rw [hbehind] at hrest
      rw [List.append_assoc, scanFrom_token hbegins henter' hr']
      refine lineRead_of_scanFrom hpad hstop hstop' n ?_
        (fun hmem => hcs (List.mem_append_right _ hmem))
        (hpoised.enter henter (readToken_isVisible hr) r.width) (hentered.emit ?_ _ _) ?_ hrest
      · rw [List.length_cons, List.length_append] at hlength
        omega
      · exact fun hlines => by rw [hcol', hcol, habreast hlines]
      · exact fun hlines => by
          show entered'.col + r.width = entered.col + r.width
          rw [hcol', hcol, habreast hlines]

theorem scanFrom_padded {lines : Bool} {cs cs' : List Char} (h : Padded lines cs cs') :
    ∀ {zone : Zone} {cur cur' : Cursor} {ls : List Lexeme}, zone.BeginsLine cur →
      cur.Poised zone → Cursor.Beside lines cur cur' → Cursor.Abreast lines cur cur' →
      scanFrom zone cs cur = .ok ls →
        ∃ ls', scanFrom zone cs' cur' = .ok ls' ∧ List.Forall₂ (Lexeme.Beside lines) ls ls' := by
  induction h with
  | @last cs pad hline hpad =>
    intro zone cur cur' ls hbegins hpoised hbeside habreast hscan
    rw [← List.append_nil cs] at hscan
    obtain ⟨zone₁, zone₁', cur₁, cur₁', hscan, hpadded, -, -, hbeside⟩ :=
      lineRead_of_scanFrom hpad endsLine_nil endsLine_nil cs.length (Nat.le_refl _) hline hpoised
        hbeside habreast hscan
    rw [List.append_nil] at hpadded
    rw [scanFrom] at hscan hpadded
    obtain rfl := Except.ok.inj hscan
    exact ⟨_, hpadded, hbeside.close⟩
  | @line cs pad rest rest' hline hpad _ ih =>
    intro zone cur cur' ls hbegins hpoised hbeside habreast hscan
    obtain ⟨zone₁, zone₁', cur₁, cur₁', hscan, hpadded, hzone, hpoised, hbeside⟩ :=
      lineRead_of_scanFrom hpad (endsLine_break rest) (endsLine_break rest') cs.length
        (Nat.le_refl _) hline hpoised hbeside habreast hscan
    obtain ⟨hnext, hbeside, habreast⟩ := hbeside.breakLine hzone
    rw [scanFrom_break] at hscan hpadded
    rw [hpadded, hnext]
    exact ih (zone₁.beginsLine_breakLine cur₁) hpoised.breakLine hbeside habreast hscan
  | @inserted pad cs cs' hlines hpad _ ih =>
    intro zone cur cur' ls hbegins hpoised hbeside _ hscan
    obtain ⟨zone', width, hpadded, hzone⟩ := hpad.scanFrom (endsLine_break cs') zone cur'
    have hdepth : (cur'.skip width).depth = cur.depth := hbeside.depth
    rw [hpadded, scanFrom_break, hbegins.breakLine hzone hdepth]
    exact ih hbegins hpoised
      ⟨hbeside.depth, hbeside.indents, hbeside.emitted, fun h => by simp [hlines] at h⟩
      (fun h => by simp [hlines] at h) hscan
  | @behind cs pad tail hlines hline hpad _ ih =>
    intro zone cur cur' ls hbegins hpoised hbeside habreast hscan
    subst hlines
    rw [← List.append_nil cs] at hscan
    obtain ⟨zone₁, zone₁', cur₁, cur₁', hscan, hpadded, hzone, hpoised, hbeside⟩ :=
      lineRead_of_scanFrom hpad endsLine_nil (endsLine_break tail) cs.length (Nat.le_refl _) hline
        hpoised hbeside habreast hscan
    obtain ⟨hnext, hbeside, habreast⟩ := hbeside.breakLine hzone
    rw [scanFrom] at hscan
    obtain rfl := Except.ok.inj hscan
    -- The text ends the same if its last line is broken, and then the lines that follow are added.
    have hbroken : scanFrom (zone₁.breakLine cur₁).1 [] (zone₁.breakLine cur₁).2 =
        .ok (zone₁.breakLine cur₁).2.close := by rw [scanFrom]
    obtain ⟨ls', hscan', hls'⟩ :=
      ih (zone₁.beginsLine_breakLine cur₁) hpoised.breakLine hbeside habreast hbroken
    rw [hpadded, scanFrom_break, hnext]
    exact ⟨ls', hscan', beside_of_map_token ((map_token_of_beside hls').trans hpoised.close_breakLine)⟩

/-- The tokens of a text are those of its padded form. -/
theorem scan_padded {lines : Bool} {source source' : String} {ls : List Lexeme}
    (h : Padded lines source.toList source'.toList) (hscan : scan source = .ok ls) :
    ∃ ls', scan source' = .ok ls' ∧ List.Forall₂ (Lexeme.Beside lines) ls ls' :=
  scanFrom_padded h (.inl rfl) Cursor.poised_start ⟨rfl, rfl, .nil, fun _ => rfl⟩ (fun _ => rfl) hscan

/-! ## Line breaks of two characters -/

/-- A character, a line break with a carriage return in front of it. -/
def afterReturn (c : Char) : List Char := if c = '\n' then ['\r', '\n'] else [c]

/-- A text with a carriage return in front of each line break. -/
def withReturns (source : String) : String := String.ofList (source.toList.flatMap afterReturn)

/-- The characters of a line are read one by one, until its end is found. -/
theorem padded_flatMap : ∀ (line : List Char) {cs : List Char}, '\n' ∉ line →
    Padded false (line ++ cs) (line ++ cs.flatMap afterReturn)
  | line, [], h => by simpa using Padded.last h .nil
  | line, c :: cs, h => by
    by_cases hc : c = '\n'
    · subst hc
      exact .line h (.blank (by decide) .nil) (padded_flatMap [] (by simp))
    · have hline : '\n' ∉ line ++ [c] := by simpa [h] using Ne.symm hc
      simpa [afterReturn, hc] using padded_flatMap (line ++ [c]) hline

/-- Carriage returns in front of line breaks are padding. -/
theorem padded_withReturns (source : String) :
    Padded false source.toList (withReturns source).toList := by
  rw [withReturns, String.toList_ofList]
  exact padded_flatMap [] (by simp)

end Stampline
