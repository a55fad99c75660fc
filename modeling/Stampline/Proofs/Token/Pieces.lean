import Stampline.Proofs.Token.Sound

/-!
# The piece of text that a token is read from

A token is read from the characters of its piece alone. What stands behind the piece matters for
one thing only: a word must not go on there, and a symbol must not be lengthened. The piece of a
quoted text holds its characters, with some of them escaped.
-/

namespace Stampline

@[simp] theorem byteWidth_nil : byteWidth [] = 0 := rfl

@[simp] theorem byteWidth_cons (c : Char) (cs : List Char) :
    byteWidth (c :: cs) = c.utf8Size + byteWidth cs := rfl

@[simp] theorem byteWidth_append (cs ds : List Char) :
    byteWidth (cs ++ ds) = byteWidth cs + byteWidth ds := by
  induction cs with
  | nil => simp
  | cons c cs ih => simp [ih, Nat.add_assoc]

/-- Neither a word nor a symbol goes on with these characters. -/
def Halts (rest : List Char) : Prop := ∀ c ∈ rest.head?, isNameRest c = false ∧ c ≠ '='

/-- What ends in front of `rest` ends in front of `rest'` too. -/
def StopsLike (rest rest' : List Char) : Prop := rest'.head? = rest.head? ∨ Halts rest'

theorem halts_nil : Halts [] := fun _ h => (Option.not_mem_none _ h).elim

theorem halts_cons {c : Char} {rest : List Char} (hword : isNameRest c = false) (hequals : c ≠ '=') :
    Halts (c :: rest) := fun d hd => by
  obtain rfl := Option.some.inj hd
  exact ⟨hword, hequals⟩

theorem stopsLike_refl (rest : List Char) : StopsLike rest rest := .inl rfl

/-! ## Symbols, words and numbers -/

/-- A symbol is read from its own characters. -/
theorem readSymbol?_piece {c : Char} {cs : List Char} {r : Reading} (hc : c ≠ '\n')
    (h : readSymbol? c cs = some r) :
    ∃ piece, cs = piece ++ r.rest ∧ '\n' ∉ piece ∧ r.width = byteWidth (c :: piece) ∧
      ∀ rest, StopsLike r.rest rest →
        readSymbol? c (piece ++ rest) = some ⟨r.token, r.width, rest⟩ := by
  have hsize : (soleSymbol? c).isSome ∨ (growingSymbol? c).isSome → c.utf8Size = 1 := by
    unfold soleSymbol? growingSymbol?
    split
    all_goals first | exact fun _ => rfl | (split <;> first | exact fun _ => rfl | simp)
  unfold readSymbol? at h
  split at h
  · rename_i s hsole
    obtain rfl := Option.some.inj h
    refine ⟨[], rfl, by simp, by simp [hsize, hsole], fun rest _ => ?_⟩
    simp [readSymbol?, hsole]
  · rename_i hsole
    split at h
    · cases h
    · rename_i short long hgrowing
      split at h
      · obtain rfl := Option.some.inj h
        have hequals : '='.utf8Size = 1 := rfl
        refine ⟨['='], rfl, by decide, by simp [hsize, hgrowing, hequals], fun rest _ => ?_⟩
        simp [readSymbol?, hsole, hgrowing]
      · rename_i hshort
        obtain rfl := Option.some.inj h
        refine ⟨[], rfl, by simp, by simp [hsize, hgrowing], fun rest hrest => ?_⟩
        have hequals : ∀ tail, rest ≠ '=' :: tail := by
          rintro tail rfl
          rcases hrest with hrest | hrest
          · obtain ⟨tail', htail⟩ := List.head?_eq_some_iff.1 hrest.symm
            exact hshort tail' htail
          · exact (hrest '=' rfl).2 rfl
        simp only [readSymbol?, hsole, hgrowing, List.nil_append]

/-- A run of characters of a word stops where other characters stop it. -/
theorem span_stopsLike {p : Char → Bool} (hp : ∀ c, p c = true → isNameRest c = true)
    {cs rest : List Char} (hrest : StopsLike (cs.dropWhile p) rest) :
    (cs.takeWhile p ++ rest).takeWhile p = cs.takeWhile p ∧
      (cs.takeWhile p ++ rest).dropWhile p = rest := by
  refine Spells.span_append (List.all_eq_true.1 List.all_takeWhile) fun c hc => ?_
  rcases hrest with hrest | hrest
  · rw [hrest] at hc
    have := List.head?_dropWhile_not p cs
    rw [Option.mem_def.1 hc] at this
    simpa using this
  · exact Bool.eq_false_iff.2 fun hpc => by simpa [hp c hpc] using (hrest c hc).1

/-- No character of a word ends a line. -/
theorem not_mem_takeWhile {p : Char → Bool} (hp : p '\n' = false) (cs : List Char) :
    '\n' ∉ cs.takeWhile p := fun h =>
  Bool.false_ne_true (hp.symm.trans (List.all_eq_true.1 List.all_takeWhile _ h))

/-! ## Quoted texts -/

/-- The characters `cs` between two quotes stand for the characters `ds`. -/
inductive Decodes (quote : Char) : List Char → List Char → Prop where
  | nil : Decodes quote [] []
  | plain {c cs ds} (hslash : c ≠ '\\') (hline : c ≠ '\n') (hquote : c ≠ quote)
      (h : Decodes quote cs ds) : Decodes quote (c :: cs) (c :: ds)
  | escaped {e d cs ds} (he : unescape? e = some d) (h : Decodes quote cs ds) :
      Decodes quote ('\\' :: e :: cs) (d :: ds)

/-- An escape takes one byte, ends no line and stands for no replacement character. -/
theorem unescape?_eq_some {e d : Char} (h : unescape? e = some d) :
    e.utf8Size = 1 ∧ e ≠ '\n' ∧ e ≠ '\uFFFD' ∧ d ≠ '\uFFFD' := by
  unfold unescape? at h
  split at h
  all_goals first | (obtain rfl := Option.some.inj h; decide) | cases h

namespace Decodes

variable {quote : Char} {cs ds : List Char}

theorem not_mem (h : Decodes quote cs ds) : '\n' ∉ cs := by
  induction h with
  | nil => simp
  | plain _ hline _ _ ih => simpa [ih] using Ne.symm hline
  | escaped he _ ih => simpa [ih] using Ne.symm (unescape?_eq_some he).2.1

/-- Replacement characters come from replacement characters. -/
theorem count_replacement (h : Decodes quote cs ds) : ds.count '\uFFFD' = cs.count '\uFFFD' := by
  induction h with
  | nil => rfl
  | plain _ _ _ _ ih => simp [List.count_cons, ih]
  | escaped he _ ih =>
    obtain ⟨-, -, he, hd⟩ := unescape?_eq_some he
    simp [ih, he, hd]

theorem readQuoted_plain {c : Char} (hslash : c ≠ '\\') (seen : List Char) (width : Nat) :
    Stampline.readQuoted quote seen width (c :: cs) =
      if c = '\n' then .error (0, .unterminatedText)
      else if c = quote then .ok ⟨.text (String.ofList seen.reverse), width + 1, cs⟩
      else Stampline.readQuoted quote (c :: seen) (width + c.utf8Size) cs := by
  rw [Stampline.readQuoted]
  exact fun h => hslash h

/-- What is decoded is read, whatever stands behind the closing quote. -/
theorem readQuoted (h : Decodes quote cs ds) (hslash : quote ≠ '\\') (hline : quote ≠ '\n')
    (rest : List Char) : ∀ (seen : List Char) (width : Nat),
      Stampline.readQuoted quote seen width (cs ++ quote :: rest) =
        .ok ⟨.text (String.ofList (seen.reverse ++ ds)), width + byteWidth cs + 1, rest⟩ := by
  induction h with
  | nil =>
    intro seen width
    rw [List.nil_append, readQuoted_plain hslash, if_neg hline, if_pos rfl]
    simp
  | plain hslash hline hquote _ ih =>
    intro seen width
    rw [List.cons_append, readQuoted_plain hslash, if_neg hline, if_neg hquote, ih]
    simp [Nat.add_assoc]
  | escaped he _ ih =>
    intro seen width
    rw [List.cons_append, List.cons_append, Stampline.readQuoted]
    simp only [he]
    rw [ih, byteWidth_cons, byteWidth_cons, (unescape?_eq_some he).1]
    have hsize : '\\'.utf8Size = 1 := rfl
    simp only [hsize, List.reverse_cons, List.append_assoc, List.singleton_append,
      Except.ok.injEq, Reading.mk.injEq, true_and, and_true]
    omega

end Decodes

/-- What is read between quotes is decoded. -/
theorem readQuoted_decodes {quote : Char} {seen : List Char} {width : Nat} {cs : List Char}
    {r : Reading} (h : readQuoted quote seen width cs = .ok r) :
    ∃ content ds, cs = content ++ quote :: r.rest ∧ Decodes quote content ds ∧
      r.token = .text (String.ofList (seen.reverse ++ ds)) := by
  fun_induction readQuoted quote seen width cs with
  | case1 => cases h
  | case2 => cases h
  | case3 seen width e rest c hc ih =>
    obtain ⟨content, ds, rfl, hdecodes, htoken⟩ := ih h
    exact ⟨'\\' :: e :: content, c :: ds, rfl, .escaped hc hdecodes, by simpa using htoken⟩
  | case4 => cases h
  | case5 => cases h
  | case6 =>
    obtain rfl := Except.ok.inj h
    exact ⟨[], [], rfl, .nil, by simp⟩
  | case7 seen width c cs hslash hline hquote ih =>
    obtain ⟨content, ds, rfl, hdecodes, htoken⟩ := ih h
    exact ⟨c :: content, c :: ds, rfl, .plain (fun h => hslash h) hline hquote hdecodes,
      by simpa using htoken⟩

/-! ## Tokens -/

/-- The character `c` and the piece behind it are what a token is read from. -/
structure PieceOf (c : Char) (piece : List Char) (r : Reading) : Prop where
  line : '\n' ∉ piece
  width : r.width = byteWidth (c :: piece)
  read : ∀ rest, StopsLike r.rest rest →
    readToken c (piece ++ rest) = .ok ⟨r.token, r.width, rest⟩
  text : ∀ value, r.token = .text value → (c = '\x22' ∨ c = '\x27') ∧
    ∃ content, piece = content ++ [c] ∧ Decodes c content value.toList

theorem readSymbol?_eq_none_iff {c : Char} {cs : List Char} :
    readSymbol? c cs = none ↔ soleSymbol? c = none ∧ growingSymbol? c = none := by
  unfold readSymbol?
  split
  · simp_all
  · split
    · simp_all
    · split <;> simp_all

/-- The piece of a word or a number whose first character is `c`. -/
theorem takeWhile_piece {p : Char → Bool} (hp : ∀ c, p c = true → isNameRest c = true) {c : Char}
    (hc : p c = true) (cs : List Char) :
    cs = cs.takeWhile p ++ (c :: cs).dropWhile p ∧ (c :: cs).takeWhile p = c :: cs.takeWhile p ∧
      ∀ rest, StopsLike ((c :: cs).dropWhile p) rest →
        (c :: (cs.takeWhile p ++ rest)).takeWhile p = c :: cs.takeWhile p ∧
          (c :: (cs.takeWhile p ++ rest)).dropWhile p = rest := by
  have htake : (c :: cs).takeWhile p = c :: cs.takeWhile p := by rw [List.takeWhile_cons, if_pos hc]
  have hdrop : (c :: cs).dropWhile p = cs.dropWhile p := by rw [List.dropWhile_cons, if_pos hc]
  refine ⟨by rw [hdrop, List.takeWhile_append_dropWhile], htake, fun rest hrest => ?_⟩
  have hspan := span_stopsLike hp hrest
  rwa [htake, List.cons_append] at hspan

/-- A quoted text is read from its quotes and what stands between them. -/
theorem exists_pieceOf_quoted {c : Char} {cs : List Char} {r : Reading} (hc : c ≠ '\n')
    (hsymbol : ∀ rest, readSymbol? c rest = none) (hbang : c ≠ '!')
    (hquote : c = '\x22' ∨ c = '\x27') (h : readQuoted c [] 1 cs = .ok r) :
    ∃ piece, cs = piece ++ r.rest ∧ PieceOf c piece r := by
  obtain ⟨content, ds, rfl, hdecodes, htoken⟩ := readQuoted_decodes h
  have hslash : c ≠ '\\' := by rcases hquote with rfl | rfl <;> decide
  have hsize : c.utf8Size = 1 := by rcases hquote with rfl | rfl <;> rfl
  have hwidth : r.width = 1 + byteWidth content + 1 := by
    have := hdecodes.readQuoted hslash hc r.rest [] 1
    rw [h] at this
    exact congrArg Reading.width (Except.ok.inj this)
  refine ⟨content ++ [c], by simp, by simpa [hdecodes.not_mem] using Ne.symm hc, ?_, ?_, ?_⟩
  · simp [hwidth, hsize, Nat.add_assoc]
  · intro rest _
    simp only [readToken, hsymbol, if_neg hbang, if_pos hquote, List.append_assoc,
      List.singleton_append, hdecodes.readQuoted hslash hc, htoken, hwidth]
  · intro value hvalue
    obtain rfl := Token.text.inj (htoken.symm.trans hvalue)
    exact ⟨hquote, content, rfl, by simpa using hdecodes⟩

/-- An integer is read from its digits and the gaps between them. -/
theorem exists_pieceOf_integer {c : Char} {cs : List Char} {r : Reading}
    (hsymbol : ∀ rest, readSymbol? c rest = none) (hbang : c ≠ '!')
    (hquote : ¬(c = '\x22' ∨ c = '\x27')) (hdigit : c.isDigit = true)
    (h : readInteger (c :: cs) = .ok r) : ∃ piece, cs = piece ++ r.rest ∧ PieceOf c piece r := by
  have hgap : isDigitOrGap c = true := by simp [isDigitOrGap, hdigit]
  obtain ⟨hcs, htake, hspan⟩ := takeWhile_piece (fun _ => Spells.isNameRest_of_isDigitOrGap) hgap cs
  unfold readInteger at h
  dsimp only at h
  split at h
  · rename_i hlt
    obtain rfl := Except.ok.inj h
    refine ⟨cs.takeWhile isDigitOrGap, hcs,
      not_mem_takeWhile (by decide) cs, by rw [htake],
      fun rest hrest => ?_, fun value hvalue => by cases hvalue⟩
    obtain ⟨htake', hdrop'⟩ := hspan rest hrest
    rw [htake] at hlt
    simp only [readToken, hsymbol, if_neg hbang, if_neg hquote, if_pos hdigit, readInteger,
      htake, htake', hdrop', if_pos hlt]
  · cases h

/-- A word is read from its letters. -/
theorem exists_pieceOf_word {c : Char} {cs : List Char} (hsymbol : ∀ rest, readSymbol? c rest = none)
    (hbang : c ≠ '!') (hquote : ¬(c = '\x22' ∨ c = '\x27')) (hdigit : ¬c.isDigit = true)
    (hstart : isNameStart c = true) :
    ∃ piece, cs = piece ++ (readWord (c :: cs)).rest ∧ PieceOf c piece (readWord (c :: cs)) := by
  have hrest : isNameRest c = true := by simp [isNameRest, hstart]
  obtain ⟨hcs, htake, hspan⟩ := takeWhile_piece (fun _ hp => hp) hrest cs
  refine ⟨cs.takeWhile isNameRest, hcs, not_mem_takeWhile (by decide) cs, ?_, ?_, ?_⟩
  · rw [readWord, htake]
  · intro rest hrest
    obtain ⟨htake', hdrop'⟩ := hspan rest hrest
    simp only [readToken, hsymbol, if_neg hbang, if_neg hquote, if_neg hdigit,
      if_pos hstart, readWord, htake, htake', hdrop']
  · intro value hvalue
    rcases @readWord_valid c cs hstart with ⟨id, hid, -⟩ | ⟨word, hword⟩
    · rw [hid] at hvalue
      cases hvalue
    · rw [hword] at hvalue
      cases hvalue

/-- Every token has its piece of the text. -/
theorem exists_pieceOf {c : Char} {cs : List Char} {r : Reading} (hc : c ≠ '\n')
    (h : readToken c cs = .ok r) : ∃ piece, cs = piece ++ r.rest ∧ PieceOf c piece r := by
  unfold readToken at h
  split at h
  · rename_i hsymbol
    obtain rfl := Except.ok.inj h
    obtain ⟨piece, hcs, hline, hwidth, hread⟩ := readSymbol?_piece hc hsymbol
    obtain ⟨s, hs⟩ := readSymbol?_isSymbol hsymbol
    refine ⟨piece, hcs, hline, hwidth, fun rest hrest => ?_, fun value hvalue => ?_⟩
    · simp only [readToken, hread rest hrest]
    · rw [hs] at hvalue
      cases hvalue
  · rename_i hnone
    -- No symbol begins with `c`, whatever stands behind it.
    have hsymbol : ∀ rest, readSymbol? c rest = none := fun rest =>
      readSymbol?_eq_none_iff.2 (readSymbol?_eq_none_iff.1 hnone)
    split at h
    · rename_i hbang
      subst hbang
      split at h
      · obtain rfl := Except.ok.inj h
        exact ⟨['='], rfl, by decide, rfl, fun rest _ => rfl, fun value hvalue => by cases hvalue⟩
      · cases h
    · rename_i hbang
      split at h
      · rename_i hquote
        exact exists_pieceOf_quoted hc hsymbol hbang hquote h
      · rename_i hquote
        split at h
        · rename_i hdigit
          exact exists_pieceOf_integer hsymbol hbang hquote hdigit h
        · rename_i hdigit
          split at h
          · rename_i hstart
            obtain rfl := Except.ok.inj h
            exact exists_pieceOf_word hsymbol hbang hquote hdigit hstart
          · cases h

end Stampline
