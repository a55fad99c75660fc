import Stampline.Proofs.Syntax.Ensures
import Stampline.Proofs.Syntax.Grammar

/-!
# Which lexemes readers take

`Takes p s P` says that whenever the reader `p` succeeds on the input `s`, which comes out of a text,
`P` holds of the lexemes that it has read and of its result.
-/

namespace Stampline

namespace Input

/-- The next lexeme. -/
def next (s : Input) : Lexeme := s.rest.headD ⟨.endOfInput, .root⟩

/-- Reading the lexemes `used` leads from one input to another. The end of the input is not among
them. -/
structure Uses (s : Input) (used : List Lexeme) (s' : Input) : Prop where
  rest : s.rest = used ++ s'.rest
  last : s'.last = lastOf s.last used
  proper : ∀ l ∈ used, l.token ≠ .endOfInput

/-- The input comes out of a text: its tokens may come out of a text, and the last lexeme is the only
one that is the end of the input. -/
structure Scanned (s : Input) : Prop where
  sound : Sound s.tokens
  ends : EndsOnce s.rest

variable {s s' s'' : Input} {used more : List Lexeme}

namespace Uses

theorem refl (s : Input) : s.Uses [] s := ⟨rfl, rfl, List.forall_mem_nil _⟩

theorem trans (h : s.Uses used s') (h' : s'.Uses more s'') : s.Uses (used ++ more) s'' := by
  refine ⟨?_, ?_, List.forall_mem_append.2 ⟨h.proper, h'.proper⟩⟩
  · rw [h.rest, h'.rest, List.append_assoc]
  · rw [h'.last, h.last, lastOf_append]

theorem next {l : Lexeme} {ls : List Lexeme} (h : s.Uses (l :: ls) s') : s.next = l := by
  rw [Input.next, h.rest]
  rfl

/-- Lexemes that begin with one that is not layout are read from its beginning to the end of the last
one that is not layout. -/
theorem through {l : Lexeme} {ls : List Lexeme} (h : s.Uses (l :: ls) s')
    (hl : l.token.isLayout = false) : s.next.span.through s'.last = stretch (l :: ls) := by
  rw [h.next, h.last, lastOf, hl]
  rfl

theorem scanned (h : s.Uses used s') (hs : s.Scanned) : s'.Scanned := by
  obtain ⟨front, span, hrest, hfront⟩ := hs.ends
  refine ⟨?_, ?_⟩
  · have htokens : s.tokens = tokensOf used ++ s'.tokens := by
      rw [tokens, h.rest, List.map_append]
      rfl
    have hsound := hs.sound
    rw [htokens] at hsound
    clear htokens h
    induction used with
    | nil => exact hsound
    | cons l ls ih => exact ih hsound.tail
  · rw [h.rest] at hrest
    rcases List.append_eq_append_iff.1 hrest with ⟨middle, hmiddle, hend⟩ | ⟨middle, hmiddle, hend⟩
    · exact ⟨middle, span, hend, fun l hl => hfront l (hmiddle ▸ List.mem_append_right _ hl)⟩
    · cases middle with
      | nil => exact ⟨[], span, hend.symm, List.forall_mem_nil _⟩
      | cons l ls =>
        obtain ⟨rfl, -⟩ := List.cons.inj hend
        exact absurd rfl (h.proper _ (hmiddle ▸ List.mem_append_right _ (.head _)))

end Uses

/-- There is a next lexeme, be it the end of the input. -/
theorem Scanned.rest_eq (h : s.Scanned) : ∃ rest, s.rest = s.next :: rest := by
  obtain ⟨front, span, hrest, -⟩ := h.ends
  rw [next, hrest]
  cases front with
  | nil => exact ⟨_, rfl⟩
  | cons l ls => exact ⟨_, rfl⟩

/-- Behind the end of the input there is nothing. -/
theorem Scanned.rest_of_end (h : s.Scanned) (hnext : s.next.token = .endOfInput) :
    s.rest = [s.next] := by
  obtain ⟨front, span, hrest, hfront⟩ := h.ends
  rw [next, hrest] at hnext ⊢
  cases front with
  | nil => rfl
  | cons l ls => exact absurd hnext (hfront l (.head _))

end Input

namespace Parser

variable {α β : Type}

/-- Whenever the reader succeeds, `P` holds of the lexemes that it has read and of its result. -/
def Takes (p : Parser α) (s : Input) (P : List Lexeme → α → Prop) : Prop :=
  s.Scanned → ∀ a s', p s = .ok (a, s') → ∃ used, s.Uses used s' ∧ P used a

namespace Takes

variable {p : Parser α} {f : α → Parser β} {s : Input} {t : Token} {P P' : List Lexeme → α → Prop}
  {Q : List Lexeme → β → Prop}

theorem pure {a : α} (ha : P [] a) : Takes (Pure.pure a) s P := by
  intro _ a' s' h
  obtain ⟨rfl, rfl⟩ := Prod.mk.inj (Except.ok.inj h)
  exact ⟨[], .refl s, ha⟩

theorem bind (hp : Takes p s P) (hf : ∀ used a s', s.Uses used s' → P used a →
    Takes (f a) s' fun more b => Q (used ++ more) b) : Takes (p >>= f) s Q := by
  intro hs b s' h
  obtain ⟨a, s₁, hps, hfs⟩ := bind_eq_ok h
  obtain ⟨used, huses, ha⟩ := hp hs a s₁ hps
  obtain ⟨more, huses', hb⟩ := hf used a s₁ huses ha (huses.scanned hs) b s' hfs
  exact ⟨used ++ more, huses.trans huses', hb⟩

theorem imp_of_uses (hp : Takes p s P)
    (h : ∀ used a s', s.Uses used s' → P used a → P' used a) : Takes p s P' := by
  intro hs a s' hps
  obtain ⟨used, huses, ha⟩ := hp hs a s' hps
  exact ⟨used, huses, h used a s' huses ha⟩

theorem imp (hp : Takes p s P) (h : ∀ used a, P used a → P' used a) : Takes p s P' :=
  hp.imp_of_uses fun used a _ _ => h used a

theorem failAt {span : Span} {fault : ParseFault} : Takes (failAt span fault) s P := by
  intro _ a s' h
  cases h

/-- Nothing comes behind a failure. -/
theorem failAt_bind {span : Span} {fault : ParseFault} {f : α → Parser β} :
    Takes (Parser.failAt span fault >>= f) s Q := by
  intro _ a s' h
  cases h

theorem fail {fault : ParseFault} : Takes (fail fault) s P := by
  intro _ a s' h
  cases h

theorem fail_bind {fault : ParseFault} {f : α → Parser β} :
    Takes (Parser.fail fault >>= f) s Q := by
  intro _ a s' h
  cases h

/-! Looking at the input reads nothing. -/

theorem peek {f : Lexeme → Parser β} (h : Takes (f s.next) s Q) : Takes (peek >>= f) s Q := h

theorem peekSecond {f : Token → Parser β}
    (h : Takes (f (s.rest.tail.headD ⟨.endOfInput, .root⟩).token) s Q) :
    Takes (peekSecond >>= f) s Q := h

theorem remaining {f : List Lexeme → Parser β} (h : Takes (f s.rest) s Q) :
    Takes (remaining >>= f) s Q := h

theorem lastSpan {f : Span → Parser β} (h : Takes (f s.last) s Q) : Takes (lastSpan >>= f) s Q := h

/-! Single lexemes. -/

theorem take : Takes take s fun used l => l = s.next ∧ (l.token ≠ .endOfInput → used = [l]) := by
  intro hs l s' h
  obtain ⟨rfl, rfl⟩ := Prod.mk.inj (Except.ok.inj h)
  obtain ⟨rest, hrest⟩ := hs.rest_eq
  by_cases hend : s.next.token = .endOfInput
  · refine ⟨[], ?_, rfl, fun hne => absurd hend hne⟩
    have hstay : s.advance = s := by simp [Input.advance, hrest, hend]
    rw [hstay]
    exact .refl s
  · refine ⟨[s.next], ?_, rfl, fun _ => rfl⟩
    have hmove : s.advance = ⟨rest, if s.next.token.isLayout then s.last else s.next.span⟩ := by
      simp [Input.advance, hrest, hend]
    rw [hmove]
    exact ⟨hrest, rfl, List.forall_mem_singleton.2 hend⟩

/-- A lexeme that was looked at is read. -/
theorem take_of_next (hnext : s.next.token = t) (ht : t ≠ .endOfInput) :
    Takes Parser.take s fun used l => l = s.next ∧ ∃ span, used = [⟨t, span⟩] := by
  refine take.imp fun used l hl => ⟨hl.1, l.span, ?_⟩
  have htoken : l.token = t := by rw [hl.1, hnext]
  rw [hl.2 (htoken ▸ ht), ← htoken]

theorem eat {p q : Parser β} (ht : t ≠ .endOfInput)
    (hyes : ∀ span s', s.Uses [⟨t, span⟩] s' → Takes p s' fun more b => Q (⟨t, span⟩ :: more) b)
    (hno : Takes q s Q) : Takes (eat t >>= fun found => if found = true then p else q) s Q := by
  have heat : Takes (Parser.eat t) s fun used found =>
      found = true ∧ (∃ span, used = [⟨t, span⟩]) ∨ found = false ∧ used = [] := by
    refine peek ?_
    by_cases hnext : s.next.token = t
    · rw [if_pos hnext]
      exact (take_of_next hnext ht).bind fun used l s' _ hl =>
        .pure (.inl ⟨rfl, (List.append_nil used).symm ▸ hl.2⟩)
    · rw [if_neg hnext]
      exact .pure (.inr ⟨rfl, rfl⟩)
  intro hs b s' h
  obtain ⟨found, s₁, hfound, hrest⟩ := bind_eq_ok h
  obtain ⟨used, huses, ⟨rfl, span, rfl⟩ | ⟨rfl, rfl⟩⟩ := heat hs found s₁ hfound
  · obtain ⟨more, huses', hb⟩ := hyes span s₁ huses (huses.scanned hs) b s' hrest
    exact ⟨_, huses.trans huses', hb⟩
  · obtain ⟨rest, last⟩ := s
    obtain ⟨rest', last'⟩ := s₁
    obtain rfl : rest = rest' := huses.rest
    obtain rfl : last' = last := huses.last
    exact hno hs b s' hrest

theorem expect (ht : t ≠ .endOfInput) : Takes (expect t) s fun used _ =>
    ∃ span, used = [⟨t, span⟩] := by
  refine peek ?_
  by_cases hnext : s.next.token = t
  · rw [if_pos hnext]
    exact (take_of_next hnext ht).bind fun used l s' _ hl =>
      .pure ((List.append_nil used).symm ▸ hl.2)
  · rw [if_neg hnext]
    exact failAt

theorem expectName : Takes expectName s fun used id => ∃ span, used = [⟨.name id, span⟩] := by
  refine peek ?_
  split
  · rename_i id hnext
    exact (take_of_next hnext (by simp)).bind fun used l s' _ hl =>
      .pure ((List.append_nil used).symm ▸ hl.2)
  · exact failAt

theorem node {e : Expr} {height : Nat} :
    Takes (node e height) s fun used o => used = [] ∧ o = ⟨e, height⟩ := by
  unfold Parser.node
  split
  · exact peek failAt
  · exact pure ⟨rfl, rfl⟩

end Takes

end Parser

end Stampline
