import Stampline.Proofs.Token.Written

/-!
# The layout of written programs

Lines that are indented by four blanks a level are read as blocks. A block is closed by the first line
behind it, so what is known at the beginning of a line is which tokens there are once all blocks
deeper than some depth are closed.
-/

namespace Stampline

/-! ## Balanced tokens -/

/-- Tokens leave as many parentheses open as there were. -/
def Balanced (ts : List Token) : Prop := ∀ depth, ts.foldl Cursor.depthAfter depth = depth

namespace Balanced

variable {ts us : List Token}

theorem append (h : Balanced ts) (h' : Balanced us) : Balanced (ts ++ us) := fun depth => by
  rw [List.foldl_append, h, h']

theorem parens (h : Balanced ts) :
    Balanced (.symbol .leftParen :: ts ++ [.symbol .rightParen]) := fun depth => by
  rw [List.cons_append, List.foldl_cons, List.foldl_append, h]
  rfl

theorem cons {t : Token} (ht : ∀ depth, Cursor.depthAfter depth t = depth) (h : Balanced ts) :
    Balanced (t :: ts) := fun depth => by
  rw [List.foldl_cons, ht, h]

theorem enclosed {least strength : Strength} (h : Balanced ts) :
    Balanced (enclosed least strength ts) := by
  unfold Stampline.enclosed
  split
  · exact h.parens
  · exact h

theorem separated : ∀ {parts : List (List Token)}, (∀ part ∈ parts, Balanced part) →
    Balanced (separated parts)
  | [], _ => fun _ => rfl
  | [p], h => by simpa [Stampline.separated] using h
  | p :: q :: parts, h => by
    have ih := separated fun part hpart => h part (List.mem_cons_of_mem _ hpart)
    have := (h p (by simp)).append (ih.cons (t := .symbol .comma) fun _ => rfl)
    simpa [Stampline.separated, List.intercalate, List.intersperse] using this

end Balanced

mutual

theorem Expr.balanced_tokens : ∀ e : Expr, Balanced e.tokens
  | .number .. | .text .. | .name .. => fun _ => rfl
  | .member _ receiver _ => receiver.balanced_tokens.enclosed.append fun _ => rfl
  | .call _ callee args keywords => by
    have hall := Balanced.separated
      (List.forall_mem_append.2 ⟨balanced_argTokens args, balanced_keywordTokens keywords⟩)
    rw [Expr.tokens, List.append_assoc]
    exact callee.balanced_tokens.enclosed.append hall.parens
  | .binary _ op left right =>
    left.balanced_tokens.enclosed.append
      (right.balanced_tokens.enclosed.cons fun _ => by cases op <;> rfl)
  | .negate _ operand => operand.balanced_tokens.enclosed.cons fun _ => rfl
  | .compare _ op left right =>
    left.balanced_tokens.enclosed.append
      (right.balanced_tokens.enclosed.cons fun _ => by cases op <;> rfl)

theorem balanced_argTokens : ∀ es : List Expr, ∀ part ∈ argTokens es, Balanced part
  | [] => nofun
  | e :: es => List.forall_mem_cons.2 ⟨e.balanced_tokens, balanced_argTokens es⟩

theorem balanced_keywordTokens : ∀ ks : List Keyword, ∀ part ∈ keywordTokens ks, Balanced part
  | [] => nofun
  | .mk _ _ value :: ks => List.forall_mem_cons.2
      ⟨(value.balanced_tokens.cons fun _ => rfl).cons fun _ => rfl, balanced_keywordTokens ks⟩

end

theorem balanced_paramTokens (params : List Param) : Balanced (paramTokens params) := by
  refine .separated fun part hpart => ?_
  obtain ⟨p, -, rfl⟩ := List.mem_map.1 hpart
  exact fun _ => rfl

/-! ## Within a line -/

/-- The tokens that a cursor has emitted. -/
def Cursor.tokens (cur : Cursor) : List Token := cur.emitted.reverse.map (·.token)

theorem Cursor.tokens_emit (cur : Cursor) (t : Token) (width : Nat) :
    (cur.emit t width).tokens = cur.tokens ++ [t] := by
  simp [Cursor.tokens, Cursor.emit]

theorem scanFrom_blank {zone : Zone} {cs : List Char} {cur : Cursor} :
    scanFrom zone (' ' :: cs) cur = scanFrom (zone.afterBlank ' ') cs (cur.skip 1) := by
  rw [scanFrom]
  rfl

theorem scanFrom_token {zone : Zone} {c : Char} {cs : List Char} {cur entered : Cursor}
    {r : Reading} (hc : BeginsToken c) (henter : zone.enter cur = .ok entered)
    (hr : readToken c cs = .ok r) :
    scanFrom zone (c :: cs) cur = scanFrom .body r.rest (entered.emit r.token r.width) := by
  rw [scanFrom, if_neg hc.1, if_neg hc.2.1, if_neg (by simp [hc.2.2])]
  simp only [henter]
  split
  · rename_i h
    simp [hr] at h
  · rename_i h
    obtain rfl := Except.ok.inj (hr.symm.trans h)
    rfl

/-- The tokens that a line spells are read. -/
theorem Spells.scanFrom {stop cs : List Char} {ts : List Token} (h : Spells stop cs ts) :
    ∀ cur : Cursor, ∃ cur' : Cursor, scanFrom .body cs cur = scanFrom .body stop cur' ∧
      cur'.tokens = cur.tokens ++ ts ∧ cur'.indents = cur.indents ∧
      cur'.depth = ts.foldl Cursor.depthAfter cur.depth := by
  induction h with
  | stop => exact fun cur => ⟨cur, rfl, by simp, rfl, rfl⟩
  | blank _ ih =>
    intro cur
    rw [scanFrom_blank]
    exact ih (cur.skip 1)
  | @token c cs r ts hc hr _ ih =>
    intro cur
    obtain ⟨cur', hscan, htokens, hindents, hdepth⟩ := ih (cur.emit r.token r.width)
    refine ⟨cur', (scanFrom_token hc rfl hr).trans hscan, ?_, hindents, hdepth⟩
    rw [htokens, Cursor.tokens_emit, List.append_assoc]
    rfl

/-- A line that spells tokens is entered at its first character. -/
theorem Spells.scanFrom_margin {stop : List Char} {c : Char} {cs : List Char} {ts : List Token}
    (h : Spells stop (c :: cs) ts) (hc : BeginsToken c) (hts : ts ≠ []) {width : Nat}
    {cur entered : Cursor} (henter : cur.indentTo width = .ok entered) :
    Stampline.scanFrom (.margin width) (c :: cs) cur =
      Stampline.scanFrom .body (c :: cs) entered := by
  have henter : (Zone.margin width).enter cur = .ok entered := henter
  cases h with
  | stop => exact absurd rfl hts
  | blank => exact absurd hc (by decide)
  | token _ hr _ => rw [scanFrom_token hc henter hr, scanFrom_token hc rfl hr]

/-! ## Indentation -/

/-- The indentations of `depth` open blocks, the innermost first. -/
def levels : Nat → List Nat
  | 0 => []
  | depth + 1 => 4 * (depth + 1) :: levels depth

theorem headD_levels (depth : Nat) : (levels depth).headD 0 = 4 * depth := by
  cases depth <;> rfl

theorem takeWhile_levels (depth : Nat) : ∀ n : Nat,
    ((levels (depth + n)).takeWhile (4 * depth < ·)).length = n ∧
      (levels (depth + n)).dropWhile (4 * depth < ·) = levels depth
  | 0 => by
    cases depth with
    | zero => exact ⟨rfl, rfl⟩
    | succ depth => simp [levels]
  | n + 1 => by
    obtain ⟨htake, hdrop⟩ := takeWhile_levels depth n
    have hlt : 4 * depth < 4 * (depth + n + 1) := by omega
    rw [← Nat.add_assoc, levels]
    simp only [List.takeWhile_cons, List.dropWhile_cons, hlt, decide_true, if_true,
      List.length_cons, htake, hdrop, and_self]

namespace Cursor

/-- The tokens that there are once a cursor has closed blocks. -/
theorem tokens_closeTo (cur : Cursor) (width : Nat) :
    (cur.closeTo width).tokens =
      cur.tokens ++ List.replicate (cur.indents.takeWhile (width < ·)).length .dedent := by
  have hfold : ∀ (ws : List Nat) (ls : List Lexeme),
      ((ws.foldl (fun ls _ => ⟨.dedent, cur.span 0⟩ :: ls) ls).reverse.map (·.token)) =
        ls.reverse.map (·.token) ++ List.replicate ws.length Token.dedent := by
    intro ws
    induction ws with
    | nil => simp
    | cons w ws ih =>
      intro ls
      rw [List.foldl_cons, ih]
      simp [List.replicate_succ]
  exact hfold _ _

/-- At the beginning of a line, behind a line that is at least `depth` blocks deep: there are the
tokens `ts` once the blocks deeper than `depth` are closed. -/
structure At (cur : Cursor) (depth : Nat) (ts : List Token) : Prop where
  free : cur.depth = 0
  ended : ∀ l ∈ cur.emitted.head?, l.token = .newline
  blocks : ∃ n, cur.indents = levels (depth + n) ∧ ts = cur.tokens ++ List.replicate n .dedent

/-- At the beginning of a line that is `depth` blocks deep: there are the tokens `ts` once its
blanks are read. -/
structure Ready (cur : Cursor) (depth : Nat) (ts : List Token) : Prop where
  free : cur.depth = 0
  indentTo : ∀ width, ∃ entered : Cursor, (cur.skip width).indentTo (4 * depth) = .ok entered ∧
    entered.tokens = ts ∧ entered.indents = levels depth ∧ entered.depth = 0

/-- At the beginning of a line, right behind a line that is `depth` blocks deep. -/
structure Behind (cur : Cursor) (depth : Nat) (ts : List Token) : Prop where
  free : cur.depth = 0
  ended : ∀ l ∈ cur.emitted.head?, l.token = .newline
  indents : cur.indents = levels depth
  tokens : cur.tokens = ts

variable {cur : Cursor} {depth : Nat} {ts : List Token}

theorem Behind.at (h : cur.Behind depth ts) : cur.At depth ts :=
  ⟨h.free, h.ended, 0, h.indents, by simp [h.tokens]⟩

/-- A block is closed by what comes behind it. -/
theorem At.close (h : cur.At (depth + 1) ts) : cur.At depth (ts ++ [.dedent]) := by
  obtain ⟨n, hindents, rfl⟩ := h.blocks
  refine ⟨h.free, h.ended, n + 1, by rw [hindents, Nat.add_assoc, Nat.add_comm 1], ?_⟩
  rw [List.append_assoc, List.replicate_succ']

theorem At.ready (h : cur.At depth ts) : cur.Ready depth ts := by
  obtain ⟨n, hindents, rfl⟩ := h.blocks
  obtain ⟨htake, hdrop⟩ := takeWhile_levels depth n
  refine ⟨h.free, fun width => ?_⟩
  have hskip : (cur.skip width).indents = levels (depth + n) := hindents
  have hclosed : ((cur.skip width).closeTo (4 * depth)).indents = levels depth := by
    rw [← hdrop, ← hindents]
    rfl
  refine ⟨(cur.skip width).closeTo (4 * depth), ?_, ?_, hclosed, h.free⟩
  · have hle : ¬(cur.skip width).indents.headD 0 < 4 * depth := by
      rw [hskip, headD_levels]
      omega
    rw [Cursor.indentTo, if_neg hle]
    simp only [hclosed, headD_levels, if_true]
  · rw [tokens_closeTo, hskip, htake]
    rfl

/-- A block is opened by its first line. -/
theorem Behind.open (h : cur.Behind depth ts) : cur.Ready (depth + 1) (ts ++ [.indent]) := by
  refine ⟨h.free, fun width => ?_⟩
  have hlt : (cur.skip width).indents.headD 0 < 4 * (depth + 1) := by
    show cur.indents.headD 0 < _
    rw [h.indents, headD_levels]
    omega
  refine ⟨_, if_pos hlt, ?_, ?_, h.free⟩
  · simp [Cursor.tokens, ← h.tokens, Cursor.skip]
  · show _ :: cur.indents = _
    rw [h.indents]
    rfl

end Cursor

theorem scanFrom_margin (cs : List Char) : ∀ (depth width : Nat) (cur : Cursor),
    scanFrom (.margin width) ((margin depth).toList ++ cs) cur =
      scanFrom (.margin (width + 4 * depth)) cs (cur.skip (4 * depth))
  | 0, width, cur => rfl
  | depth + 1, width, cur => by
    have hskip : ((((cur.skip 1).skip 1).skip 1).skip 1).skip (4 * depth) =
        cur.skip (4 * (depth + 1)) := by
      simp only [Cursor.skip, Cursor.mk.injEq, true_and, and_true]
      omega
    have hwidth : width + 1 + 1 + 1 + 1 + 4 * depth = width + 4 * (depth + 1) := by omega
    have hmargin : (margin (depth + 1)).toList ++ cs =
        ' ' :: ' ' :: ' ' :: ' ' :: ((margin depth).toList ++ cs) := by
      simp [margin]
    rw [hmargin, ← hskip, ← hwidth, ← scanFrom_margin cs depth]
    simp only [scanFrom_blank]
    rfl

/-- A text begins with a token. -/
def Opens (text : String) : Prop := ∃ c cs, text.toList = c :: cs ∧ BeginsToken c

/-- A whole line is read. -/
theorem Cursor.Ready.line {cur : Cursor} {depth : Nat} {ts toks : List Token}
    (h : cur.Ready depth ts) {text : String} {rest : List Char} (hopens : Opens text)
    (htoks : toks ≠ []) (hbalanced : Balanced toks)
    (hspells : Spells ('\n' :: rest) (text.toList ++ '\n' :: rest) toks) :
    ∃ cur' : Cursor, scanFrom (.margin 0) ((margin depth).toList ++ text.toList ++ '\n' :: rest) cur =
      scanFrom (.margin 0) rest cur' ∧ cur'.Behind depth (ts ++ toks ++ [.newline]) := by
  obtain ⟨c, cs, htext, hc⟩ := hopens
  obtain ⟨entered, henter, htokens, hindents, hdepth⟩ := h.indentTo (4 * depth)
  obtain ⟨cur', hscan, htokens', hindents', hdepth'⟩ := hspells.scanFrom entered
  rw [hbalanced, hdepth] at hdepth'
  refine ⟨(cur'.emit .newline 1).nextLine, ?_, hdepth', ?_, hindents'.trans hindents, ?_⟩
  · rw [List.append_assoc, scanFrom_margin, Nat.zero_add]
    rw [htext, List.cons_append] at hspells hscan ⊢
    rw [hspells.scanFrom_margin hc htoks henter, hscan, scanFrom]
    simp only [if_true, Zone.breakLine, hdepth']
  · simp [Cursor.emit, Cursor.nextLine]
  · show (cur'.emit .newline 1).tokens = _
    rw [Cursor.tokens_emit, htokens', htokens]

end Stampline
