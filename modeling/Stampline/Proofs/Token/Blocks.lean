import Stampline.Proofs.Token.Layout

/-!
# Written programs are read as their tokens
-/

namespace Stampline

/-! ## The first character of a line -/

theorem Opens.append {text : String} (h : Opens text) (other : String) : Opens (text ++ other) := by
  obtain ⟨c, cs, htext, hc⟩ := h
  exact ⟨c, cs ++ other.toList, by simp [htext], hc⟩

theorem opens_name {id : String} (hid : isName id = true) : Opens id := by
  unfold isName at hid
  split at hid
  · simp at hid
  · rename_i c cs hword
    simp only [Bool.and_eq_true] at hid
    exact ⟨c, cs, hword, Spells.beginsToken_of_isNameRest (by simp [isNameRest, hid.1.1])⟩

theorem opens_of_first {text : String} {c : Char} (htext : text.toList = [c])
    (hc : BeginsToken c) : Opens text := ⟨c, [], htext, hc⟩

theorem Opens.parenthesized {text : String} (h : Opens text) (least strength : Strength) :
    Opens (parenthesized least strength text) := by
  unfold Stampline.parenthesized
  split
  · exact ((opens_of_first rfl (by decide)).append text).append ")"
  · exact h

theorem opens_toString {n : Int} (hn : 0 ≤ n) : Opens (toString n) := by
  obtain ⟨n, rfl⟩ := Int.eq_ofNat_of_zero_le hn
  obtain ⟨c, tail, hdigits⟩ := List.exists_cons_of_ne_nil (Nat.toDigits_ne_nil (n := n) (b := 10))
  have hc : c.isDigit = true :=
    Nat.isDigit_of_mem_toDigits (n := n) (b := 10) (by decide) (by decide) (by simp [hdigits])
  exact ⟨c, tail, Nat.toList_repr.trans hdigits,
    Spells.beginsToken_of_isNameRest (by simp [isNameRest, hc])⟩

theorem Reserved.opens (r : Reserved) : Opens r.spelling := by
  cases r <;> exact ⟨_, _, rfl, by decide⟩

theorem Expr.opens (e : Expr) (h : e.Formed fun value => 0 ≤ value.toInt) : Opens e.bare := by
  cases e with
  | number => exact opens_toString h
  | text => exact ((opens_of_first rfl (by decide)).append _).append _
  | name => exact opens_name h
  | member _ receiver =>
    have := (receiver.opens h.1).parenthesized .postfixed receiver.strength
    exact (this.append _).append _
  | call _ callee =>
    have := (callee.opens h.1).parenthesized .postfixed callee.strength
    exact ((this.append _).append _).append _
  | binary _ op left =>
    have := (left.opens h.1).parenthesized op.strength left.strength
    exact (((this.append _).append _).append _).append _
  | negate => exact (opens_of_first rfl (by decide)).append _
  | compare _ _ left =>
    have := (left.opens h.1).parenthesized .sum left.strength
    exact (((this.append _).append _).append _).append _

/-! ## Lines and blocks -/

/-- A text that begins with a line `depth` blocks deep is read as tokens. -/
def ReadAs (text : String) (depth : Nat) (toks : List Token) : Prop :=
  ∀ (cur : Cursor) (ts : List Token) (rest : List Char), cur.Ready depth ts →
    ∃ cur' : Cursor, scanFrom (.margin 0) (text.toList ++ rest) cur =
      scanFrom (.margin 0) rest cur' ∧ cur'.At depth (ts ++ toks)

namespace ReadAs

variable {text other : String} {depth : Nat} {toks others : List Token}

theorem congr (h : ReadAs text depth toks) (htext : other.toList = text.toList) :
    ReadAs other depth toks := by
  intro cur ts rest hready
  rw [htext]
  exact h cur ts rest hready

theorem append (h : ReadAs text depth toks) (h' : ReadAs other depth others) :
    ReadAs (text ++ other) depth (toks ++ others) := by
  intro cur ts rest hready
  obtain ⟨next, hscan, hat⟩ := h cur ts (other.toList ++ rest) hready
  obtain ⟨last, hscan', hat'⟩ := h' next _ rest hat.ready
  refine ⟨last, ?_, by rwa [← List.append_assoc]⟩
  rw [String.toList_append, List.append_assoc, hscan, hscan']

/-- A line of its own. -/
theorem line (hopens : Opens text) (hne : toks ≠ []) (hbalanced : Balanced toks)
    (h : Writes text toks) : ReadAs (margin depth ++ text ++ "\n") depth (toks ++ [.newline]) := by
  intro cur ts rest hready
  have hspells : Spells ('\n' :: rest) (text.toList ++ '\n' :: rest) (toks ++ []) :=
    h.spells (Spells.stops_cons '\n' rfl) .stop
  rw [List.append_nil] at hspells
  obtain ⟨next, hscan, hbehind⟩ := hready.line hopens hne hbalanced hspells
  refine ⟨next, ?_, by rw [← List.append_assoc]; exact hbehind.at⟩
  rw [← hscan]
  simp

/-- A line that a block belongs to. -/
theorem compound (hopens : Opens text) (hbalanced : Balanced toks) (h : Writes text toks)
    (hbody : ReadAs other (depth + 1) others) :
    ReadAs (margin depth ++ text ++ ":\n" ++ other) depth (toks ++ indented others) := by
  intro cur ts rest hready
  have hcolon : Spells ('\n' :: (other.toList ++ rest)) (':' :: '\n' :: (other.toList ++ rest))
      [.symbol .colon] := .sole rfl .stop
  have hspells := h.spells (Spells.stops_cons ':' rfl) hcolon
  have hheader : Spells ('\n' :: (other.toList ++ rest))
      ((text ++ ":").toList ++ '\n' :: (other.toList ++ rest)) (toks ++ [.symbol .colon]) := by
    simpa using hspells
  have hline := hready.line (hopens.append ":") (by simp) (hbalanced.append fun _ => rfl) hheader
  obtain ⟨next, hscan, hbehind⟩ := hline
  obtain ⟨last, hscan', hat⟩ := hbody next _ rest hbehind.open
  refine ⟨last, ?_, ?_⟩
  · rw [← hscan', ← hscan]
    simp
  · have := hat.close
    simpa [indented] using this

end ReadAs

/-- A text behind a line is read as tokens. -/
def ReadBehind (text : String) (depth : Nat) (toks : List Token) : Prop :=
  ∀ (cur : Cursor) (ts : List Token) (rest : List Char), cur.At depth ts →
    ∃ cur' : Cursor, scanFrom (.margin 0) (text.toList ++ rest) cur =
      scanFrom (.margin 0) rest cur' ∧ cur'.At depth (ts ++ toks)

theorem ReadAs.behind {text : String} {depth : Nat} {toks : List Token}
    (h : ReadAs text depth toks) : ReadBehind text depth toks :=
  fun cur ts rest hat => h cur ts rest hat.ready

theorem ReadAs.appendBehind {text other : String} {depth : Nat} {toks others : List Token}
    (h : ReadAs text depth toks) (h' : ReadBehind other depth others) :
    ReadAs (text ++ other) depth (toks ++ others) := by
  intro cur ts rest hready
  obtain ⟨next, hscan, hat⟩ := h cur ts (other.toList ++ rest) hready
  obtain ⟨last, hscan', hat'⟩ := h' next _ rest hat
  refine ⟨last, ?_, by rwa [← List.append_assoc]⟩
  rw [String.toList_append, List.append_assoc, hscan, hscan']

theorem ReadBehind.nothing {depth : Nat} : ReadBehind "" depth [] :=
  fun _ _ _ hat => ⟨_, rfl, by rwa [List.append_nil]⟩

/-! ## Statements -/

/-- The head of a definition. -/
theorem writes_head {name : String} {params : List Param} (hname : isName name = true)
    (hparams : ∀ p ∈ params, isName p.name = true) :
    Writes ("def " ++ name ++ "(" ++ ", ".intercalate (params.map Param.name) ++ ")")
      (.reserved .define :: .name name :: .symbol .leftParen :: paramTokens params ++
        [.symbol .rightParen]) := by
  have hall : List.Forall₂ Writes (params.map Param.name)
      (params.map fun p => [Token.name p.name]) := by
    rw [List.forall₂_map_left_iff, List.forall₂_map_right_iff]
    exact List.forall₂_same.2 fun p hp => writes_name (hparams p hp)
  have h := ((writes_name hname).applied (Writes.separated hall)).behind .define
  have htext : Reserved.spelling .define ++ " " ++
      (name ++ "(" ++ ", ".intercalate (params.map Param.name) ++ ")") =
      "def " ++ name ++ "(" ++ ", ".intercalate (params.map Param.name) ++ ")" := by
    rw [← String.toList_inj]
    simp [Reserved.spelling]
  rwa [htext] at h

theorem balanced_head (name : String) (params : List Param) :
    Balanced (.reserved .define :: .name name :: .symbol .leftParen :: paramTokens params ++
      [.symbol .rightParen]) :=
  ((balanced_paramTokens params).parens.cons fun _ => rfl).cons fun _ => rfl

section Behind

variable {value : Expr} (h : value.Formed (fun value => 0 ≤ value.toInt)) (r : Reserved)

include h

theorem writes_behind : Writes (r.spelling ++ " " ++ value.bare) (.reserved r :: value.tokens) :=
  (value.writes h).behind r

theorem readAs_behind (depth : Nat) :
    ReadAs (margin depth ++ (r.spelling ++ " " ++ value.bare) ++ "\n") depth
      (.reserved r :: value.tokens ++ [.newline]) :=
  .line ((r.opens.append _).append _) (by simp) (value.balanced_tokens.cons fun _ => rfl)
    (writes_behind h r)

/-- A test behind a reserved word, with the block that it decides on. -/
theorem readAs_test {depth : Nat} {body : List Stmt}
    (hbody : ReadAs (blockText (depth + 1) body) (depth + 1) (blockTokens body)) :
    ReadAs (margin depth ++ (r.spelling ++ " " ++ value.bare) ++ ":\n" ++
      blockText (depth + 1) body) depth
      (.reserved r :: value.tokens ++ indented (blockTokens body)) :=
  .compound ((r.opens.append _).append _) (value.balanced_tokens.cons fun _ => rfl)
    (writes_behind h r) hbody

end Behind

theorem written_readAs : ByStatement
    (fun s => s.Formed (fun value => 0 ≤ value.toInt) → ∀ depth,
      ReadAs (s.written depth) depth s.tokens)
    (fun block => BlockFormed (fun value => 0 ≤ value.toInt) block → block ≠ [] → ∀ depth,
      ReadAs (blockText depth block) depth (blockTokens block))
    (fun orelse => BlockFormed (fun value => 0 ≤ value.toInt) orelse → ∀ depth,
      ReadBehind (orelseText depth orelse) depth (orelseTokens orelse)) where
  define span name params body hbody h depth := by
    obtain ⟨hname, hparams, -, hne, hformed⟩ := h
    have hdef : Opens "def " := ⟨_, _, rfl, by decide⟩
    have := ReadAs.compound ((((hdef.append _).append _).append _).append _)
      (balanced_head name params) (writes_head hname hparams) (hbody hformed hne (depth + 1))
    simpa [Stmt.tokens] using this.congr (by simp [Stmt.written])
  giveZero span h depth := by
    have : ReadAs (margin depth ++ _ ++ "\n") depth _ :=
      .line Reserved.give.opens (by simp) (fun _ => rfl) (.reserved .give)
    exact this.congr (by simp [Stmt.written, Reserved.spelling])
  give span value h depth := by
    exact (readAs_behind h .give depth).congr (by simp [Stmt.written, Reserved.spelling])
  assign span target value h depth := by
    have hopens := ((((opens_name h.1).append " ").append "=").append " ").append value.bare
    have : ReadAs (margin depth ++ _ ++ "\n") depth _ := .line hopens (by simp)
      ((value.balanced_tokens.cons fun _ => rfl).cons fun _ => rfl)
      ((writes_name h.1).join .assign (value.writes h.2))
    exact this.congr (by simp [Stmt.written])
  eval span value h depth := by
    obtain ⟨t, rest, htokens, -⟩ := value.begin_tokens
    exact .line (value.opens h) (by simp [htokens]) value.balanced_tokens (value.writes h)
  branch span test body orelse hbody horelse h depth := by
    obtain ⟨htest, hne, hbodyFormed, horelseFormed⟩ := h
    have := (readAs_test htest .whether (hbody hbodyFormed hne (depth + 1))).appendBehind
      (horelse horelseFormed depth)
    exact this.congr (by simp [Stmt.written, Reserved.spelling])
  loop span test body hbody h depth := by
    obtain ⟨htest, hne, hformed⟩ := h
    have := readAs_test htest .repeating (hbody hformed hne (depth + 1))
    exact this.congr (by simp [Stmt.written, Reserved.spelling])
  pass span h depth := by
    have : ReadAs (margin depth ++ _ ++ "\n") depth _ :=
      .line Reserved.pass.opens (by simp) (fun _ => rfl) (.reserved .pass)
    exact this.congr (by simp [Stmt.written, Reserved.spelling])
  nil h hne depth := absurd rfl hne
  cons s ss hs hss h hne depth := by
    rw [blockText, blockTokens]
    cases ss with
    | nil => simpa [blockText, blockTokens] using hs h.1 depth
    | cons t ts => exact (hs h.1 depth).append (hss h.2 (by simp) depth)
  absent h depth := .nothing
  link span test body orelse hbody horelse h depth := by
    obtain ⟨⟨htest, hne, hbodyFormed, horelseFormed⟩, -⟩ := h
    have := (readAs_test htest .elseWhether (hbody hbodyFormed hne (depth + 1))).appendBehind
      (horelse horelseFormed depth)
    exact (this.congr (by simp [orelseText, Reserved.spelling])).behind
  otherwise block hne hlink hblock h depth := by
    rw [orelseText_of_not_isLink hne hlink, orelseTokens_of_not_isLink hne hlink]
    have : ReadAs (margin depth ++ _ ++ ":\n" ++ _) depth _ :=
      .compound Reserved.otherwise.opens (fun _ => rfl) (.reserved .otherwise)
        (hblock h hne (depth + 1))
    exact (this.congr (by simp [Reserved.spelling])).behind

/-! ## Programs -/

theorem Cursor.At.endLine {cur : Cursor} {depth : Nat} {ts : List Token} (h : cur.At depth ts) :
    cur.endLine = cur := by
  have hended := h.ended
  unfold Cursor.endLine
  split
  · rfl
  · rfl
  · rename_i hne hnewline
    cases hemitted : cur.emitted with
    | nil => exact absurd hemitted hne
    | cons l ls =>
      obtain ⟨token, span⟩ := l
      obtain rfl : token = .newline := hended ⟨token, span⟩ (by simp [hemitted])
      exact absurd hemitted (hnewline span ls)

/-- The end of the text closes all blocks. -/
theorem Cursor.At.tokens_close {cur : Cursor} {ts : List Token} (h : cur.At 0 ts) :
    cur.close.map (·.token) = ts ++ [.endOfInput] := by
  obtain ⟨n, hindents, rfl⟩ := h.blocks
  obtain ⟨htake, -⟩ := takeWhile_levels 0 n
  show Cursor.tokens _ = _
  rw [h.endLine, Cursor.tokens_emit, Cursor.tokens_closeTo, hindents, htake]

/-- The written form of a program is read as its tokens. -/
theorem Program.scan_print {p : Program} (h : BlockFormed (fun value => 0 ≤ value.toInt) p) :
    ∃ lexemes, scan p.print = .ok lexemes ∧ lexemes.map (·.token) = p.tokens := by
  have hstart : ({} : Cursor).At 0 [] := ⟨rfl, nofun, 0, rfl, rfl⟩
  have hscan : ∃ cur : Cursor, scanFrom (.margin 0) ((blockText 0 p).toList ++ []) {} =
      scanFrom (.margin 0) [] cur ∧ cur.At 0 ([] ++ blockTokens p) := by
    cases p with
    | nil => exact ⟨{}, rfl, hstart⟩
    | cons s ss => exact written_readAs.block (s :: ss) h (by simp) 0 {} [] [] hstart.ready
  obtain ⟨cur, hscan, hat⟩ := hscan
  refine ⟨cur.close, ?_, hat.tokens_close⟩
  rw [List.append_nil] at hscan
  rw [scan, Program.print, hscan, scanFrom]

end Stampline
