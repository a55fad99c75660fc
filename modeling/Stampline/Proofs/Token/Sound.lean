import Mathlib.Data.List.Chain
import Stampline.Proofs.Token.Layout

/-!
# What is scanned

Scanned names are names, scanned integers are not negative, and a block that is opened holds
something.
-/

namespace Stampline

/-- Whether a token may come out of a text: names are names and integers are not negative. -/
def Token.Valid : Token → Prop
  | .name id => isName id = true
  | .integer value => 0 ≤ value.toInt
  | _ => True

/-- Tokens may come out of a text: each of them may, and no block is closed where it is opened. -/
structure Sound (ts : List Token) : Prop where
  valid : ∀ t ∈ ts, t.Valid
  chain : ts.IsChain fun t u => t = .indent → u ≠ .dedent
  last : ts.getLast? ≠ some .indent

namespace Sound

variable {t : Token} {ts : List Token}

theorem nil : Sound [] := ⟨nofun, .nil, nofun⟩

/-- A token that opens no block is added. -/
theorem concat (h : Sound ts) (ht : t.Valid) (hindent : t ≠ .indent) : Sound (ts ++ [t]) := by
  refine ⟨?_, List.isChain_append.2 ⟨h.chain, .singleton _, ?_⟩, by simpa using hindent⟩
  · simpa [or_imp, forall_and] using ⟨h.valid, ht⟩
  · rintro u hu - - rfl
    exact absurd hu h.last

/-- A block is opened, and the first token of what it holds is added. -/
theorem concat_indent (h : Sound ts) (ht : t.Valid) (hindent : t ≠ .indent) (hdedent : t ≠ .dedent) :
    Sound (ts ++ [.indent, t]) := by
  refine ⟨?_, List.isChain_append.2 ⟨h.chain, ?_, ?_⟩, by simpa using hindent⟩
  · simpa [or_imp, forall_and, Token.Valid] using ⟨h.valid, ht⟩
  · simpa using hdedent
  · rintro u hu - - rfl
    exact absurd hu h.last

theorem closed (h : Sound ts) : ∀ n : Nat, Sound (ts ++ List.replicate n .dedent)
  | 0 => by simpa using h
  | n + 1 => by
    rw [List.replicate_succ', ← List.append_assoc]
    exact (closed h n).concat trivial (by simp)

theorem tail (h : Sound (t :: ts)) : Sound ts := by
  refine ⟨fun u hu => h.valid u (.tail _ hu), h.chain.tail, fun hlast => h.last ?_⟩
  rw [List.getLast?_cons, hlast]
  rfl

/-- Behind the opening of a block comes what it holds. -/
theorem opened (h : Sound (.indent :: ts)) : ∃ u us, ts = u :: us ∧ u ≠ .dedent := by
  cases ts with
  | nil => exact absurd rfl h.last
  | cons u us => exact ⟨u, us, rfl, (List.isChain_cons_cons.1 h.chain).1 rfl⟩

end Sound

/-! ## Single tokens -/

theorem readQuoted_isText {quote : Char} {seen : List Char} {width : Nat} {cs : List Char}
    {r : Reading} (h : readQuoted quote seen width cs = .ok r) : ∃ value, r.token = .text value := by
  fun_induction readQuoted quote seen width cs with
  | case1 => simp at h
  | case2 => simp at h
  | case3 seen width e rest c hc ih => exact ih h
  | case4 => simp at h
  | case5 => simp at h
  | case6 =>
    obtain rfl := Except.ok.inj h
    exact ⟨_, rfl⟩
  | case7 seen width c cs _ _ _ ih => exact ih h

theorem readSymbol?_isSymbol {c : Char} {cs : List Char} {r : Reading}
    (h : readSymbol? c cs = some r) : ∃ s, r.token = .symbol s := by
  unfold readSymbol? at h
  split at h
  · obtain rfl := Option.some.inj h
    exact ⟨_, rfl⟩
  · split at h
    · simp at h
    · split at h <;> (obtain rfl := Option.some.inj h; exact ⟨_, rfl⟩)

theorem readInteger_nonneg {cs : List Char} {r : Reading} (h : readInteger cs = .ok r) :
    ∃ value : Int64, r.token = .integer value ∧ 0 ≤ value.toInt := by
  unfold readInteger at h
  dsimp only at h
  split at h
  · rename_i hlt
    obtain rfl := Except.ok.inj h
    refine ⟨_, rfl, ?_⟩
    rw [Int64.toInt_ofNat_of_lt (by simpa [integerBound] using hlt)]
    exact Int.natCast_nonneg _
  · simp at h

/-- A word that begins as a name does is a name or reserved. -/
theorem readWord_valid {c : Char} {cs : List Char} (hc : isNameStart c = true) :
    (∃ id, (readWord (c :: cs)).token = .name id ∧ isName id = true) ∨
      ∃ word, (readWord (c :: cs)).token = .reserved word := by
  have hrest : isNameRest c = true := by simp [isNameRest, hc]
  unfold readWord Token.ofWord
  dsimp only
  split
  · exact .inr ⟨_, rfl⟩
  · rename_i hword
    refine .inl ⟨_, rfl, ?_⟩
    have hletters : (c :: cs).takeWhile isNameRest = c :: cs.takeWhile isNameRest := by
      rw [List.takeWhile_cons, if_pos hrest]
    rw [hletters] at hword ⊢
    simp only [isName, String.toList_ofList, hc, List.all_takeWhile, hword, Option.isNone_none,
      Bool.and_self]

/-- A token that is read in a line is valid and no token of the layout. -/
theorem readToken_valid {c : Char} {cs : List Char} {r : Reading} (h : readToken c cs = .ok r) :
    r.token.Valid ∧ r.token ≠ .indent ∧ r.token ≠ .dedent ∧ r.token ≠ .endOfInput := by
  unfold readToken at h
  split at h
  · rename_i hsymbol
    obtain rfl := Except.ok.inj h
    obtain ⟨s, hs⟩ := readSymbol?_isSymbol hsymbol
    simp [hs, Token.Valid]
  · split at h
    · split at h
      · obtain rfl := Except.ok.inj h
        simp [Token.Valid]
      · simp at h
    · split at h
      · obtain ⟨value, hvalue⟩ := readQuoted_isText h
        simp [hvalue, Token.Valid]
      · split at h
        · obtain ⟨value, hvalue, hnonneg⟩ := readInteger_nonneg h
          simpa [hvalue, Token.Valid] using hnonneg
        · split at h
          · rename_i hstart
            obtain rfl := Except.ok.inj h
            rcases @readWord_valid _ cs hstart with ⟨id, hid, hname⟩ | ⟨word, hword⟩
            · simpa [hid, Token.Valid] using hname
            · simp [hword, Token.Valid]
          · simp at h

/-! ## Texts -/

namespace Cursor

variable {cur entered : Cursor}

/-- Where a line is entered, a token of the line may be added. -/
theorem sound_enter {zone : Zone} (h : Sound cur.tokens) (henter : zone.enter cur = .ok entered)
    {t : Token} (ht : t.Valid) (hindent : t ≠ .indent) (hdedent : t ≠ .dedent) :
    Sound (entered.tokens ++ [t]) := by
  obtain ⟨-, rfl⟩ | ⟨width, -, ⟨-, rfl⟩ | ⟨-, -, rfl⟩⟩ := Zone.enter_eq_ok henter
  · exact h.concat ht hindent
  · simpa [Cursor.tokens] using h.concat_indent ht hindent hdedent
  · rw [tokens_closeTo]
    exact (h.closed _).concat ht hindent

theorem sound_breakLine {zone : Zone} (h : Sound cur.tokens) :
    Sound (zone.breakLine cur).2.tokens := by
  unfold Zone.breakLine
  split
  · exact h
  · split
    · show Sound (cur.emit .newline 1).tokens
      rw [tokens_emit]
      exact h.concat trivial (by simp)
    · exact h

theorem sound_endLine (h : Sound cur.tokens) : Sound cur.endLine.tokens := by
  unfold endLine
  split
  · exact h
  · exact h
  · rw [tokens_emit]
    exact h.concat trivial (by simp)

theorem sound_close (h : Sound cur.tokens) : Sound (cur.close.map (·.token)) := by
  show Sound ((cur.endLine.closeTo 0).emit .endOfInput 0).tokens
  rw [tokens_emit, tokens_closeTo]
  exact ((sound_endLine h).closed _).concat trivial (by simp)

end Cursor

theorem sound_scanFrom {zone : Zone} {cs : List Char} {cur : Cursor} {ls : List Lexeme}
    (hcur : Sound cur.tokens) (h : scanFrom zone cs cur = .ok ls) :
    Sound (ls.map (·.token)) := by
  fun_induction scanFrom zone cs cur with
  | case1 =>
    obtain rfl := Except.ok.inj h
    exact Cursor.sound_close hcur
  | case2 zone cur rest next ih => exact ih (Cursor.sound_breakLine hcur) h
  | case3 zone cur rest comment hne ih => exact ih hcur h
  | case4 zone cur c rest _ _ _ ih => exact ih hcur h
  | case5 => simp at h
  | case6 => simp at h
  | case7 zone cur c rest _ _ _ entered henter r hr ih =>
    obtain ⟨hvalid, hindent, hdedent, -⟩ := readToken_valid hr
    refine ih ?_ h
    rw [Cursor.tokens_emit]
    exact Cursor.sound_enter hcur henter hvalid hindent hdedent

/-- What is scanned is sound. -/
theorem sound_scan {source : String} {ls : List Lexeme} (h : scan source = .ok ls) :
    Sound (ls.map (·.token)) :=
  @sound_scanFrom _ _ {} _ .nil h

/-! ## The end of the input -/

/-- The last lexeme is the end of the input, and no other one is. -/
def EndsOnce (ls : List Lexeme) : Prop :=
  ∃ front span, ls = front ++ [⟨.endOfInput, span⟩] ∧ ∀ l ∈ front, l.token ≠ .endOfInput

namespace Cursor

/-- Where a line is entered, blocks are opened or closed. -/
theorem mem_tokens_enter {zone : Zone} {cur entered : Cursor} (henter : zone.enter cur = .ok entered)
    {t : Token} (ht : t ∈ entered.tokens) : t ∈ cur.tokens ∨ t = .indent ∨ t = .dedent := by
  obtain ⟨-, rfl⟩ | ⟨width, -, ⟨-, rfl⟩ | ⟨-, -, rfl⟩⟩ := Zone.enter_eq_ok henter
  · exact .inl ht
  · rw [Cursor.tokens, List.reverse_cons, List.map_append, List.mem_append] at ht
    exact ht.imp_right fun ht => .inl (List.mem_singleton.1 ht)
  · rw [tokens_closeTo, List.mem_append] at ht
    exact ht.imp_right fun ht => .inr (List.eq_of_mem_replicate ht)

/-- A break in a line ends it or does nothing. -/
theorem mem_tokens_breakLine {zone : Zone} {cur : Cursor} {t : Token}
    (ht : t ∈ (zone.breakLine cur).2.tokens) : t ∈ cur.tokens ∨ t = .newline := by
  unfold Zone.breakLine at ht
  split at ht
  · exact .inl ht
  · split at ht
    · replace ht : t ∈ (cur.emit .newline 1).tokens := ht
      rw [tokens_emit, List.mem_append] at ht
      exact ht.imp_right List.mem_singleton.1
    · exact .inl ht

theorem ends_close {cur : Cursor} (h : .endOfInput ∉ cur.tokens) : EndsOnce cur.close := by
  have hline : .endOfInput ∉ cur.endLine.tokens := by
    unfold endLine
    split
    · exact h
    · exact h
    · rw [tokens_emit]
      simpa using h
  have hclosed : .endOfInput ∉ (cur.endLine.closeTo 0).tokens := by
    rw [tokens_closeTo, List.mem_append, not_or]
    exact ⟨hline, fun hmem => by cases List.eq_of_mem_replicate hmem⟩
  refine ⟨(cur.endLine.closeTo 0).emitted.reverse, _, List.reverse_cons, fun l hl htoken => ?_⟩
  exact hclosed (htoken ▸ List.mem_map_of_mem hl)

end Cursor

theorem ends_scanFrom {zone : Zone} {cs : List Char} {cur : Cursor} {ls : List Lexeme}
    (hcur : .endOfInput ∉ cur.tokens) (h : scanFrom zone cs cur = .ok ls) : EndsOnce ls := by
  fun_induction scanFrom zone cs cur with
  | case1 =>
    obtain rfl := Except.ok.inj h
    exact Cursor.ends_close hcur
  | case2 zone cur rest next ih =>
    refine ih (fun hmem => ?_) h
    rcases Cursor.mem_tokens_breakLine hmem with hmem | hmem
    · exact hcur hmem
    · cases hmem
  | case3 zone cur rest comment hne ih => exact ih hcur h
  | case4 zone cur c rest _ _ _ ih => exact ih hcur h
  | case5 => cases h
  | case6 => cases h
  | case7 zone cur c rest _ _ _ entered henter r hr ih =>
    refine ih (fun hmem => ?_) h
    rw [Cursor.tokens_emit, List.mem_append, List.mem_singleton] at hmem
    rcases hmem with hmem | hmem
    · rcases Cursor.mem_tokens_enter henter hmem with hmem | hmem | hmem
      · exact hcur hmem
      · cases hmem
      · cases hmem
    · exact (readToken_valid hr).2.2.2 hmem.symm

/-- What is scanned ends where the text ends. -/
theorem ends_scan {source : String} {ls : List Lexeme} (h : scan source = .ok ls) :
    EndsOnce ls :=
  @ends_scanFrom _ _ {} _ (List.not_mem_nil) h

end Stampline
