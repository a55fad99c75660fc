import Stampline.Proofs.Syntax.Forms
import Stampline.Proofs.Syntax.Tokens

/-!
# The tokens of a written line

`Spells stop cs ts` says that the characters `cs` are read as the tokens `ts` up to `stop`, within one
line. The written form of an expression is read as its tokens, whatever its texts contain.
-/

namespace Stampline

/-- A character that a token begins with. -/
def BeginsToken (c : Char) : Prop := c ≠ '\n' ∧ c ≠ '#' ∧ isBlank c = false

instance (c : Char) : Decidable (BeginsToken c) := inferInstanceAs (Decidable (_ ∧ _ ∧ _))

/-- The characters `cs` spell the tokens `ts` up to `stop`. -/
inductive Spells (stop : List Char) : List Char → List Token → Prop where
  | stop : Spells stop stop []
  | blank {cs ts} (h : Spells stop cs ts) : Spells stop (' ' :: cs) ts
  | token {c cs r ts} (hc : BeginsToken c) (hr : readToken c cs = .ok r)
      (h : Spells stop r.rest ts) : Spells stop (c :: cs) (r.token :: ts)

/-- Characters that a word does not go on with. -/
def Stops : List Char → Prop
  | [] => True
  | c :: _ => isNameRest c = false

namespace Spells

variable {stop cs : List Char} {ts : List Token}

theorem stops_cons (c : Char) (hc : isNameRest c = false) : Stops (c :: cs) := hc

/-! ## Symbols -/

theorem beginsToken_of_soleSymbol? {c : Char} {s : Symbol} (h : soleSymbol? c = some s) :
    BeginsToken c := by
  unfold soleSymbol? at h
  split at h <;> first | decide | simp at h

/-- A symbol that no other begins with. -/
theorem sole {c : Char} {s : Symbol} (hc : soleSymbol? c = some s) (h : Spells stop cs ts) :
    Spells stop (c :: cs) (.symbol s :: ts) :=
  .token (r := ⟨.symbol s, 1, cs⟩) (beginsToken_of_soleSymbol? hc)
    (by simp only [readToken, readSymbol?, hc]) h

/-- A symbol between blanks. -/
theorem spaced (s : Symbol) (h : Spells stop cs ts) :
    Spells stop (' ' :: (s.spelling.toList ++ ' ' :: cs)) (.symbol s :: ts) := by
  have hread : ∃ c tail width, s.spelling.toList = c :: tail ∧ BeginsToken c ∧
      readToken c (tail ++ ' ' :: cs) = .ok ⟨.symbol s, width, ' ' :: cs⟩ := by
    cases s <;> exact ⟨_, _, _, rfl, by decide, rfl⟩
  obtain ⟨c, tail, width, hs, hc, hr⟩ := hread
  rw [hs]
  exact .blank (.token hc hr (.blank h))

/-! ## Words -/

theorem readSymbol?_eq_none {c : Char} (h : isNameRest c = true) (cs : List Char) :
    readSymbol? c cs = none := by
  have hsole : soleSymbol? c = none := by
    unfold soleSymbol?
    split <;> first | rfl | exact absurd h (by decide)
  have hgrowing : growingSymbol? c = none := by
    unfold growingSymbol?
    split <;> first | rfl | exact absurd h (by decide)
  simp only [readSymbol?, hsole, hgrowing]

theorem ne_of_isNameRest {c d : Char} (h : isNameRest c = true) (hd : isNameRest d = false) :
    c ≠ d := by
  rintro rfl
  simp [h] at hd

theorem beginsToken_of_isNameRest {c : Char} (h : isNameRest c = true) : BeginsToken c := by
  refine ⟨ne_of_isNameRest h (by decide), ne_of_isNameRest h (by decide), ?_⟩
  simp only [isBlank, Bool.or_eq_false_iff, beq_eq_false_iff_ne]
  exact ⟨⟨ne_of_isNameRest h (by decide), ne_of_isNameRest h (by decide)⟩,
    ne_of_isNameRest h (by decide)⟩

theorem not_isDigit_of_isNameStart {c : Char} (h : isNameStart c = true) : c.isDigit = false := by
  have h : (decide (c.val ≥ 65 ∧ c.val ≤ 90) ||
    (decide (c.val ≥ 97) && decide (c.val ≤ 122)) || c == '_') = true := h
  simp only [Char.isDigit, Bool.or_eq_true, Bool.and_eq_true, decide_eq_true_eq, beq_iff_eq,
    Bool.and_eq_false_iff, decide_eq_false_iff_not, UInt32.le_iff_toNat_le, ge_iff_le] at h ⊢
  rcases h with (h | h) | rfl
  · right; simp at h ⊢; omega
  · right; simp at h ⊢; omega
  · decide

/-- A run of characters is taken whole where what follows does not go on with it. -/
theorem span_append {p : Char → Bool} {word : List Char} (hword : ∀ c ∈ word, p c = true)
    (hcs : ∀ c ∈ cs.head?, p c = false) :
    (word ++ cs).takeWhile p = word ∧ (word ++ cs).dropWhile p = cs := by
  rw [List.takeWhile_append_of_pos hword, List.dropWhile_append_of_pos hword]
  cases cs with
  | nil => simp
  | cons c cs => simp [hcs c rfl]

theorem stops_head {cs : List Char} (h : Stops cs) : ∀ c ∈ cs.head?, isNameRest c = false := by
  cases cs with
  | nil => simp
  | cons c cs => simpa [Stops] using h

/-- A word is read as a name or a reserved word. -/
theorem letters {word : String} {c : Char} {tail : List Char} (hword : word.toList = c :: tail)
    (hc : isNameStart c = true) (htail : ∀ d ∈ tail, isNameRest d = true) (hcs : Stops cs)
    (h : Spells stop cs ts) : Spells stop (word.toList ++ cs) (.ofWord word :: ts) := by
  have hrest : isNameRest c = true := by simp [isNameRest, hc]
  have hall : ∀ d ∈ word.toList, isNameRest d = true := by
    rw [hword]
    exact List.forall_mem_cons.2 ⟨hrest, htail⟩
  obtain ⟨htake, hdrop⟩ := span_append hall (stops_head hcs)
  have hread : readToken c (tail ++ cs) = .ok (readWord (word.toList ++ cs)) := by
    have hbang : c ≠ '!' := ne_of_isNameRest hrest (by decide)
    have hdouble : c ≠ '\x22' := ne_of_isNameRest hrest (by decide)
    have hsingle : c ≠ '\x27' := ne_of_isNameRest hrest (by decide)
    simp only [readToken, readSymbol?_eq_none hrest, hbang, hdouble, hsingle, or_self,
      not_isDigit_of_isNameStart hc, hc, if_false, if_true, hword, List.cons_append]
    rfl
  have hreading : readWord (word.toList ++ cs) = ⟨.ofWord word, byteWidth word.toList, cs⟩ := by
    simp only [readWord, htake, hdrop, String.ofList_toList]
  rw [hword]
  exact .token (beginsToken_of_isNameRest hrest) (hread.trans (congrArg _ hreading)) h

theorem name {id : String} (hid : isName id = true) (hcs : Stops cs) (h : Spells stop cs ts) :
    Spells stop (id.toList ++ cs) (.name id :: ts) := by
  unfold isName at hid
  split at hid
  · simp at hid
  · rename_i c tail hword
    simp only [Bool.and_eq_true, List.all_eq_true, Option.isNone_iff_eq_none] at hid
    have := letters hword hid.1.1 hid.1.2 hcs h
    rwa [Token.ofWord, hid.2] at this

theorem reserved (r : Reserved) (hcs : Stops cs) (h : Spells stop cs ts) :
    Spells stop (r.spelling.toList ++ cs) (.reserved r :: ts) := by
  have hr : ∃ c tail, r.spelling.toList = c :: tail ∧ isNameStart c = true ∧
      tail.all isNameRest = true ∧ Reserved.ofSpelling? r.spelling = some r := by
    cases r <;> exact ⟨_, _, rfl, by decide, by decide, by decide⟩
  obtain ⟨c, tail, hword, hc, htail, hspelling⟩ := hr
  have := letters hword hc (List.all_eq_true.1 htail) hcs h
  rwa [Token.ofWord, hspelling] at this

/-! ## Literals -/

theorem isNameRest_of_isDigitOrGap {c : Char} (h : isDigitOrGap c = true) :
    isNameRest c = true := by
  simp only [isDigitOrGap, Bool.or_eq_true] at h
  simp only [isNameRest, isNameStart, Bool.or_eq_true]
  exact h.elim .inr fun h => .inl (.inr h)

theorem decimalValue_toDigits (n : Nat) : decimalValue (Nat.toDigits 10 n) = n := by
  have hdigits : (Nat.toDigits 10 n).filter Char.isDigit = Nat.toDigits 10 n :=
    List.filter_eq_self.2 fun c hc => Nat.isDigit_of_mem_toDigits (by decide) (by decide) hc
  rw [decimalValue, hdigits]
  exact Nat.ofDigitChars_toDigits (by decide) (by decide)

theorem integer {value : Int64} (hvalue : 0 ≤ value.toInt) (hcs : Stops cs)
    (h : Spells stop cs ts) :
    Spells stop ((toString value.toInt).toList ++ cs) (.integer value :: ts) := by
  obtain ⟨n, hn⟩ := Int.eq_ofNat_of_zero_le hvalue
  have hofNat : Int64.ofNat n = value := by
    rw [← Int64.ofInt_eq_ofNat, ← hn, Int64.ofInt_toInt]
  have htext : (toString value.toInt).toList = Nat.toDigits 10 n := by
    rw [hn]
    exact Nat.toList_repr
  have hdigit : ∀ c ∈ Nat.toDigits 10 n, c.isDigit = true := fun c hc =>
    Nat.isDigit_of_mem_toDigits (by decide) (by decide) hc
  have hbound : n < integerBound := by
    have hmax := value.toInt_le
    have : (Int64.maxValue).toInt = 9223372036854775807 := by decide
    simp only [integerBound]
    omega
  have hgaps : ∀ c ∈ Nat.toDigits 10 n, isDigitOrGap c = true := fun c hc => by
    simp [isDigitOrGap, hdigit c hc]
  have hstops : ∀ c ∈ cs.head?, isDigitOrGap c = false := fun c hc =>
    Bool.eq_false_iff.2 fun hgap => by
      simpa [isNameRest_of_isDigitOrGap hgap] using stops_head hcs c hc
  obtain ⟨htake, hdrop⟩ := span_append hgaps hstops
  have hread : readInteger (Nat.toDigits 10 n ++ cs) =
      .ok ⟨.integer value, byteWidth (Nat.toDigits 10 n), cs⟩ := by
    simp only [readInteger, htake, hdrop, decimalValue_toDigits, hbound, if_true, hofNat]
  rw [htext]
  obtain ⟨c, tail, hdigits⟩ := List.exists_cons_of_ne_nil (Nat.toDigits_ne_nil (n := n) (b := 10))
  have hc : c.isDigit = true := hdigit c (by simp [hdigits])
  have hrest : isNameRest c = true := isNameRest_of_isDigitOrGap (by simp [isDigitOrGap, hc])
  have hbang : c ≠ '!' := ne_of_isNameRest hrest (by decide)
  have hdouble : c ≠ '\x22' := ne_of_isNameRest hrest (by decide)
  have hsingle : c ≠ '\x27' := ne_of_isNameRest hrest (by decide)
  rw [hdigits, List.cons_append] at hread ⊢
  refine .token (beginsToken_of_isNameRest hrest) (.trans ?_ hread) h
  simp only [readToken, readSymbol?_eq_none hrest, hbang, hdouble, hsingle, or_self, hc, if_false,
    if_true]

theorem unescape_escaped {c : Char} (cs : List Char) (quoted : List Char) (width : Nat) :
    ∃ width', readQuoted '\x27' quoted width ((escaped c).toList ++ cs) =
      readQuoted '\x27' (c :: quoted) width' cs := by
  by_cases hc : c ∈ ['\\', '\x27', '\n', '\t', '\r', '\x00']
  · simp only [List.mem_cons, List.not_mem_nil, or_false] at hc
    rcases hc with rfl | rfl | rfl | rfl | rfl | rfl <;> exact ⟨width + 2, rfl⟩
  · simp only [List.mem_cons, List.not_mem_nil, or_false, not_or] at hc
    obtain ⟨hslash, hquote, hline, htab, hreturn, hnull⟩ := hc
    refine ⟨width + c.utf8Size, ?_⟩
    have hwritten : (escaped c).toList = [c] := by
      simp [escaped, hslash, hquote, hline, htab, hreturn, hnull]
    rw [hwritten, List.singleton_append, readQuoted]
    · rw [if_neg hline, if_neg hquote]
    · exact fun h => hslash h

theorem readQuoted_quoted (value : List Char) : ∀ (seen : List Char) (width : Nat),
    ∃ width', readQuoted '\x27' seen width
      (value.flatMap (fun c => (escaped c).toList) ++ '\x27' :: cs) =
        .ok ⟨.text (String.ofList (seen.reverse ++ value)), width', cs⟩ := by
  induction value with
  | nil => exact fun seen width => ⟨width + 1, by simp [readQuoted]⟩
  | cons c value ih =>
    intro seen width
    rw [List.flatMap_cons, List.append_assoc]
    obtain ⟨width, hread⟩ := unescape_escaped (c := c)
      (value.flatMap (fun c => (escaped c).toList) ++ '\x27' :: cs) seen width
    obtain ⟨width', hrest⟩ := ih (c :: seen) width
    exact ⟨width', by simpa using hread.trans hrest⟩

theorem text (value : String) (h : Spells stop cs ts) :
    Spells stop ((quoted value).toList ++ cs) (.text value :: ts) := by
  obtain ⟨width, hread⟩ := @readQuoted_quoted cs value.toList [] 1
  have hquoted : (quoted value).toList ++ cs = '\x27' ::
      (value.toList.flatMap (fun c => (escaped c).toList) ++ '\x27' :: cs) := by
    simp [quoted, List.flatMap_map]
  rw [hquoted]
  refine .token (r := ⟨.text value, width, cs⟩) (by decide) ?_ h
  simpa [readToken, readSymbol?, soleSymbol?, growingSymbol?] using hread

end Spells

end Stampline
