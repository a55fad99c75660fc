import Stampline.Proofs.Syntax.Reads
import Stampline.Proofs.Token.Sound

/-!
# What readers of syntax ensure

`Parser.Ensures p P` says that whatever the reader `p` reads of tokens that may come out of a text,
`P` holds of it.
-/

namespace Stampline

namespace Parser

variable {α β : Type}

/-- What a reader makes of tokens that come out of a text has the property `P`. -/
def Ensures (p : Parser α) (P : α → Prop) : Prop :=
  ∀ (s : Input) (a : α) (s' : Input), Sound s.tokens → p s = .ok (a, s') → Sound s'.tokens ∧ P a

theorem bind_eq_ok {p : Parser α} {f : α → Parser β} {s s' : Input} {b : β}
    (h : (p >>= f) s = .ok (b, s')) : ∃ a s₁, p s = .ok (a, s₁) ∧ f a s₁ = .ok (b, s') := by
  replace h : (p s >>= fun r => f r.1 r.2) = .ok (b, s') := h
  cases hps : p s with
  | error e =>
    rw [hps] at h
    cases h
  | ok r =>
    rw [hps] at h
    exact ⟨r.1, r.2, rfl, h⟩

namespace Ensures

variable {p : Parser α} {f : α → Parser β} {P P' : α → Prop} {Q : β → Prop}

theorem pure {a : α} (ha : P a) : Ensures (Pure.pure a) P := by
  intro s a' s' hs h
  obtain ⟨rfl, rfl⟩ := Prod.mk.inj (Except.ok.inj h)
  exact ⟨hs, ha⟩

theorem bind (hp : Ensures p P) (hf : ∀ a, P a → Ensures (f a) Q) : Ensures (p >>= f) Q := by
  intro s b s' hs h
  obtain ⟨a, s₁, hps, hfs⟩ := bind_eq_ok h
  obtain ⟨hs₁, ha⟩ := hp s a s₁ hs hps
  exact hf a ha s₁ b s' hs₁ hfs

theorem imp (hp : Ensures p P) (h : ∀ a, P a → P' a) : Ensures p P' := fun s a s' hs hps =>
  (hp s a s' hs hps).imp_right (h a)

theorem failAt {span : Span} {fault : ParseFault} : Ensures (failAt span fault) P :=
  fun _ _ _ _ h => nomatch h

theorem peek : Ensures peek (·.token.Valid) := by
  intro s l s' hs h
  obtain ⟨rfl, rfl⟩ := Prod.mk.inj (Except.ok.inj h)
  refine ⟨hs, ?_⟩
  cases hrest : s.rest with
  | nil => trivial
  | cons l rest => exact hs.valid l.token (by simp [Input.tokens, hrest])

theorem fail {fault : ParseFault} : Ensures (fail fault) P := peek.bind fun _ _ => failAt

theorem sound_advance {s : Input} (hs : Sound s.tokens) : Sound s.advance.tokens := by
  unfold Input.advance
  split
  · exact hs
  · rename_i l rest hrest
    split
    · exact hs
    · unfold Input.tokens at hs
      rw [hrest] at hs
      exact hs.tail

theorem take : Ensures take (·.token.Valid) := by
  intro s l s' hs h
  obtain ⟨rfl, rfl⟩ := Prod.mk.inj (Except.ok.inj h)
  exact ⟨sound_advance hs, (peek s _ s hs rfl).2⟩

theorem peekSecond : Ensures peekSecond fun _ => True := by
  intro s t s' hs h
  obtain ⟨rfl, rfl⟩ := Prod.mk.inj (Except.ok.inj h)
  exact ⟨hs, trivial⟩

theorem remaining : Ensures remaining fun _ => True := by
  intro s ls s' hs h
  obtain ⟨rfl, rfl⟩ := Prod.mk.inj (Except.ok.inj h)
  exact ⟨hs, trivial⟩

theorem lastSpan : Ensures lastSpan fun _ => True := by
  intro s span s' hs h
  obtain ⟨rfl, rfl⟩ := Prod.mk.inj (Except.ok.inj h)
  exact ⟨hs, trivial⟩

theorem eat {t : Token} : Ensures (eat t) fun _ => True := by
  refine peek.bind fun l _ => ?_
  split
  · exact take.bind fun _ _ => pure trivial
  · exact pure trivial

theorem expect {t : Token} : Ensures (expect t) fun _ => True := by
  refine peek.bind fun l _ => ?_
  split
  · exact take.bind fun _ _ => pure trivial
  · exact failAt

theorem expectName : Ensures expectName (isName · = true) := by
  refine peek.bind fun l hl => ?_
  split
  · rename_i id hid
    rw [hid] at hl
    exact take.bind fun _ _ => pure hl
  · exact failAt

theorem nested {q : Option (Parser α)} (h : ∀ p ∈ q, Ensures p P) : Ensures (nested q) P := by
  cases q with
  | none => exact fail
  | some p => exact h p rfl

theorem node {e : Expr} {height : Nat} :
    Ensures (node e height) fun o => o = ⟨e, height⟩ ∧ height ≤ maxNesting := by
  unfold Parser.node
  split
  · exact peek.bind fun _ _ => failAt
  · rename_i hlow
    exact pure ⟨rfl, Nat.not_lt.1 hlow⟩

end Ensures

/-- Behind the opening of a block comes what it holds. -/
theorem opened_of_expect {s s' : Input} {u : Unit} (hs : Sound s.tokens)
    (h : expect .indent s = .ok (u, s')) : ∃ t ts, s'.tokens = t :: ts ∧ t ≠ .dedent := by
  have hindent : (s.rest.headD ⟨.endOfInput, .root⟩).token = .indent := by
    by_contra hne
    have hfail : expect .indent s = Parser.failAt (s.rest.headD ⟨.endOfInput, .root⟩).span
        (.expected .indent (s.rest.headD ⟨.endOfInput, .root⟩).token) s := by
      show (if _ then _ else _ : Parser Unit) s = _
      rw [if_neg hne]
    cases hfail.symm.trans h
  cases hrest : s.rest with
  | nil => simp [hrest] at hindent
  | cons l rest =>
    have htokens : s.tokens = .indent :: rest.map (·.token) := by
      rw [hrest] at hindent
      rw [Input.tokens, hrest, List.map_cons]
      exact congrArg (· :: _) hindent
    obtain ⟨u', s₁, hexpect, hs₁, -⟩ := Reads.expect htokens (by simp)
    obtain ⟨-, rfl⟩ := Prod.mk.inj (Except.ok.inj (hexpect.symm.trans h))
    obtain ⟨t, ts, hts, hdedent⟩ := (htokens ▸ hs : Sound (.indent :: _)).opened
    exact ⟨t, ts, hs₁.trans hts, hdedent⟩

end Parser

end Stampline
