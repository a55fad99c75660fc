import Stampline.Syntax.Parser

/-!
# What readers of syntax read

`Reads p s toks P` says that the reader `p` succeeds on the input `s`, leaves the tokens `toks`, and
has a result of which `P` holds. Nothing that a reader does depends on where lexemes stand.
-/

namespace Stampline

/-- The tokens that are left to read. -/
def Input.tokens (s : Input) : List Token := s.rest.map (·.token)

theorem Input.length_tokens (s : Input) : s.tokens.length = s.rest.length := List.length_map _

/-- A loop that may take as many rounds as there are tokens left may take one for the first tokens, and
as many more as there are tokens behind them. -/
theorem Input.exists_bound_append {s : Input} {ts us : List Token} {bound : List Lexeme}
    (hs : s.tokens = ts ++ us) (hts : ts ≠ []) (hbound : s.tokens.length ≤ bound.length) :
    ∃ l bound', bound = l :: bound' ∧ us.length ≤ bound'.length := by
  have hpos := List.length_pos_iff.2 hts
  rw [hs, List.length_append] at hbound
  obtain ⟨l, bound', rfl⟩ := List.exists_cons_of_length_pos (l := bound) (by omega)
  rw [List.length_cons] at hbound
  exact ⟨l, bound', rfl, by omega⟩

theorem Input.exists_bound {s : Input} {t : Token} {ts : List Token} {bound : List Lexeme}
    (hs : s.tokens = t :: ts) (hbound : s.tokens.length ≤ bound.length) :
    ∃ l bound', bound = l :: bound' ∧ ts.length ≤ bound'.length := by
  have hs : s.tokens = [t] ++ ts := hs
  exact exists_bound_append hs (List.cons_ne_nil _ _) hbound

namespace Parser

variable {α β : Type}

/-- A reader succeeds, leaves the tokens `toks`, and has a result of which `P` holds. -/
def Reads (p : Parser α) (s : Input) (toks : List Token) (P : α → Prop) : Prop :=
  ∃ a s', p s = .ok (a, s') ∧ s'.tokens = toks ∧ P a

namespace Reads

variable {p : Parser α} {f : α → Parser β} {s : Input} {t u : Token} {ts us : List Token}
  {P : α → Prop} {Q : β → Prop}

/-- What comes behind a reader goes on with what it has read. -/
theorem bind_eq (h : Reads p s ts P) : ∃ a s', s'.tokens = ts ∧ P a ∧
    ∀ {β : Type} (f : α → Parser β), (p >>= f) s = f a s' := by
  obtain ⟨a, s', hp, hts, ha⟩ := h
  refine ⟨a, s', hts, ha, fun f => ?_⟩
  show (p s >>= fun r => f r.1 r.2) = _
  rw [hp]
  rfl

theorem bind (h : Reads p s ts P)
    (hf : ∀ a s', s'.tokens = ts → P a → Reads (f a) s' us Q) : Reads (p >>= f) s us Q := by
  obtain ⟨a, s', hts, ha, hbind⟩ := h.bind_eq
  rw [Reads, hbind]
  exact hf a s' hts ha

theorem pure {a : α} (hs : s.tokens = ts) (ha : P a) : Reads (Pure.pure a) s ts P :=
  ⟨a, s, rfl, hs, ha⟩

theorem imp {P' : α → Prop} (h : Reads p s ts P) (hP : ∀ a, P a → P' a) : Reads p s ts P' := by
  obtain ⟨a, s', hp, hts, ha⟩ := h
  exact ⟨a, s', hp, hts, hP a ha⟩

theorem rest_of_tokens (hs : s.tokens = t :: ts) : ∃ l rest, s.rest = l :: rest ∧ l.token = t ∧
    rest.map (·.token) = ts := List.map_eq_cons_iff.1 hs

theorem peek (hs : s.tokens = t :: ts) : Reads peek s (t :: ts) (·.token = t) := by
  obtain ⟨l, rest, hrest, ht, -⟩ := rest_of_tokens hs
  exact ⟨l, s, by simp [Parser.peek, hrest], hs, ht⟩

theorem peekSecond (hs : s.tokens = t :: u :: ts) :
    Reads peekSecond s (t :: u :: ts) (· = u) := by
  obtain ⟨l, rest, hrest, -, htail⟩ := rest_of_tokens hs
  obtain ⟨l', rest', rfl, hu, -⟩ := List.map_eq_cons_iff.1 htail
  exact ⟨l'.token, s, by simp [Parser.peekSecond, hrest], hs, hu⟩

theorem take (hs : s.tokens = t :: ts) (ht : t ≠ .endOfInput) :
    Reads take s ts (·.token = t) := by
  obtain ⟨l, rest, hrest, rfl, htail⟩ := rest_of_tokens hs
  refine ⟨s.rest.headD ⟨.endOfInput, .root⟩, s.advance, rfl, ?_, by simp [hrest]⟩
  simp [Input.advance, hrest, ht, Input.tokens, htail]

theorem lastSpan (hs : s.tokens = ts) : Reads lastSpan s ts fun _ => True := ⟨_, s, rfl, hs, trivial⟩

theorem remaining (hs : s.tokens = ts) :
    Reads remaining s ts (·.length = ts.length) :=
  ⟨s.rest, s, rfl, hs, by rw [← hs, Input.length_tokens]⟩

/-- A token that is there is taken. -/
theorem eat (hs : s.tokens = t :: ts) (ht : t ≠ .endOfInput) : Reads (eat t) s ts (· = true) := by
  refine (peek hs).bind fun l s' hs' hl => ?_
  rw [if_pos hl]
  exact (take hs' ht).bind fun _ _ hs'' _ => pure hs'' rfl

/-- A token that is not there is not taken. -/
theorem eat_of_ne (hs : s.tokens = t :: ts) (ht : t ≠ u) :
    Reads (Parser.eat u) s (t :: ts) (· = false) := by
  refine (peek hs).bind fun l s' hs' hl => ?_
  rw [if_neg (hl ▸ ht)]
  exact pure hs' rfl

theorem expect (hs : s.tokens = t :: ts) (ht : t ≠ .endOfInput) :
    Reads (expect t) s ts fun _ => True := by
  refine (peek hs).bind fun l s' hs' hl => ?_
  simp only [hl, if_true]
  exact (take hs' ht).bind fun _ _ hs'' _ => pure hs'' trivial

theorem expectName {id : String} (hs : s.tokens = .name id :: ts) :
    Reads expectName s ts (· = id) := by
  refine (peek hs).bind fun l s' hs' hl => ?_
  simp only [hl]
  exact (take hs' (by simp)).bind fun _ _ hs'' _ => pure hs'' rfl

/-- A node that is not too high is made. -/
theorem node (e : Expr) {height : Nat} (hs : s.tokens = ts) (hheight : height ≤ maxNesting) :
    Reads (node e height) s ts (· = ⟨e, height⟩) := by
  unfold Parser.node
  rw [if_neg (Nat.not_lt.2 hheight)]
  exact ⟨_, s, rfl, hs, rfl⟩

end Reads

end Parser

end Stampline
