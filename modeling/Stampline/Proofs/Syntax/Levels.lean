import Stampline.Proofs.Syntax.Reads
import Stampline.Proofs.Syntax.Tokens

/-!
# Levels of the descent

There is a reader for every strength. What a reader of one strength reads, those of all looser
strengths read as well, and in parentheses so do those of tighter ones. Where operators are repeated,
what is read may still be the beginning of more, so the loop that comes behind it is part of what is
said: an operand is read, and the loop goes on from there.
-/

namespace Stampline

/-- How tightly a token that continues an expression is bound to what stands before it; 0 for all
other tokens. -/
def Token.grip : Token → Nat
  | .symbol .leftParen | .symbol .dot => 5
  | .symbol .star | .symbol .slash | .symbol .percent => 3
  | .symbol .plus | .symbol .minus => 2
  | .symbol .equal | .symbol .notEqual | .symbol .less | .symbol .lessEqual
  | .symbol .greater | .symbol .greaterEqual => 1
  | _ => 0

theorem Strength.eq_of_rank {k l : Strength} (h : k.rank = l.rank) : k = l := by
  cases k <;> cases l <;> first | rfl | exact absurd h (by decide)

theorem Strength.rank_tighter (l : Strength) {k : Strength} (h : l.rank < k.rank) :
    l.tighter.rank = l.rank + 1 := by
  cases l <;> first | rfl | (cases k <;> exact absurd h (by decide))

namespace Parser

/-- What comes next continues no expression of the rank `rank` or a higher one. -/
def Follows (rank : Nat) : List Token → Prop
  | [] => False
  | t :: _ => t.grip < rank

theorem Follows.mono {rank rank' : Nat} (hle : rank ≤ rank') : ∀ {ts : List Token},
    Follows rank ts → Follows rank' ts
  | _ :: _, h => Nat.lt_of_lt_of_le h hle

theorem Follows.ne_nil {rank : Nat} : ∀ {ts : List Token}, Follows rank ts → ts ≠ []
  | _ :: _, _ => List.cons_ne_nil _ _

theorem comparison?_eq_none {t : Token} (h : t.grip < 1) : comparison? t = none := by
  unfold comparison?
  split <;> first | rfl | exact absurd h (by decide)

theorem sumOp?_eq_none {t : Token} (h : t.grip < 2) : sumOp? t = none := by
  unfold sumOp?
  split <;> first | rfl | exact absurd h (by decide)

theorem productOp?_eq_none {t : Token} (h : t.grip < 3) : productOp? t = none := by
  unfold productOp?
  split <;> first | rfl | exact absurd h (by decide)

/-! ## Readers -/

section Readers

variable {m : Type → Type} [Monad m] [MonadLiftT Parser m] [Nesting m]

/-- What is read inside parentheses, with `budget` levels of nesting left outside. -/
def inner : Nat → Option (m Operand)
  | 0 => none
  | budget + 1 => some (expression budget)

/-- What is read behind a sign, with `budget` levels of nesting left before it. -/
def deeper : Nat → Option (m Operand)
  | 0 => none
  | budget + 1 => some (negation budget)

theorem negation_eq (budget : Nat) :
    (negation budget : m Operand) = signed (deeper budget) (inner budget) := by
  cases budget <;> rw [negation] <;> rfl

theorem expression_eq (budget : Nat) :
    (expression budget : m Operand) = compared (negation budget) := by
  cases budget <;> rw [expression, negation]

end Readers

/-- The reader of a strength, with `budget` levels of nesting left. -/
def level (budget : Nat) : Strength → Parser Operand
  | .loosest | .comparison => expression budget
  | .sum => sum (negation budget)
  | .product => chain productOp? (negation budget)
  | .sign => negation budget
  | .postfixed => postfixed (inner budget)
  | .atom => atom (inner budget)

variable {p operand : Parser Operand} {op? : Token → Option BinaryOp}
  {loop : Span → List Lexeme → Operand → Parser Operand} {s : Input} {ts toks : List Token}
  {P Q : Operand → Prop} {budget : Nat}

/-! ## Loops -/

/-- A reader reads an operand and goes on with a loop, in which it may take as many rounds as there
are tokens left. -/
def Continues (p : Parser Operand) (loop : Span → List Lexeme → Operand → Parser Operand) (s : Input)
    (ts : List Token) (P : Operand → Prop) : Prop :=
  ∃ start bound o s', p s = loop start bound o s' ∧ s'.tokens = ts ∧ ts.length ≤ bound.length ∧ P o

/-- A loop goes on as far as one of its rounds does. -/
theorem Continues.round {us : List Token} (h : Continues p loop s ts P)
    (hround : ∀ start l bound o s', s'.tokens = ts → P o → ∃ o' s'',
      loop start (l :: bound) o s' = loop start bound o' s'' ∧ s''.tokens = us ∧ Q o')
    (hus : us.length < ts.length) : Continues p loop s us Q := by
  obtain ⟨start, bound, o, s', hp, htokens, hbound, ho⟩ := h
  cases bound with
  | nil =>
    rw [List.length_nil] at hbound
    omega
  | cons l bound =>
    obtain ⟨o', s'', hloop, htokens', ho'⟩ := hround start l bound o s' htokens ho
    rw [List.length_cons] at hbound
    exact ⟨start, bound, o', s'', hp.trans hloop, htokens', by omega, ho'⟩

/-- A chain of operands begins with one. -/
theorem Continues.chain (h : Reads operand s ts P) :
    Continues (chain op? operand) (fun _ => chainFrom op? operand) s ts P := by
  obtain ⟨o, s', hts, ho, hbind⟩ := h.bind_eq
  obtain ⟨bound, s'', hts', hbound, hremaining⟩ := (Reads.remaining hts).bind_eq
  refine ⟨.root, bound, o, s'', ?_, hts', Nat.le_of_eq hbound.symm, ho⟩
  rw [Parser.chain, hbind]
  exact hremaining _

/-- A chain ends where no operator comes next. -/
theorem Continues.chain_stop {t : Token}
    (h : Continues p (fun _ => chainFrom op? operand) s (t :: ts) P) (ht : op? t = none) :
    Reads p s (t :: ts) P := by
  obtain ⟨start, bound, o, s', hp, hts, -, ho⟩ := h
  have hstop : Reads (chainFrom op? operand bound o) s' (t :: ts) P := by
    cases bound with
    | nil => exact .pure hts ho
    | cons l bound =>
      refine (Reads.peek hts).bind fun l' s'' hts' hl => ?_
      simp only [hl, ht]
      exact .pure hts' ho
  obtain ⟨a, s'', hloop, hrest⟩ := hstop
  exact ⟨a, s'', hp.trans hloop, hrest⟩

/-- Calls and attributes end where neither comes next. -/
theorem Continues.postfix_stop (h : Continues p (postfixFrom (inner budget)) s ts P)
    (hts : Follows 5 ts) : Reads p s ts P := by
  obtain ⟨start, bound, o, s', hp, htokens, -, ho⟩ := h
  obtain ⟨t, rest, rfl⟩ := List.exists_cons_of_ne_nil hts.ne_nil
  have hstop : Reads (postfixFrom (inner budget) start bound o) s' (t :: rest) P := by
    cases bound with
    | nil => exact .pure htokens ho
    | cons l bound =>
      refine (Reads.peek htokens).bind fun l' s'' htokens' hl => ?_
      simp only [hl]
      have hgrip : t.grip < 5 := hts
      split
      · exact absurd hgrip (by decide)
      · exact absurd hgrip (by decide)
      · exact .pure htokens' ho
  obtain ⟨a, s'', hloop, hrest⟩ := hstop
  exact ⟨a, s'', hp.trans hloop, hrest⟩

/-- Calls and attributes begin with an atom. -/
theorem Continues.postfixed {t : Token} (hs : s.tokens = t :: toks)
    (h : ∀ s : Input, s.tokens = t :: toks → Reads (atom (inner budget)) s ts P) :
    Continues (postfixed (inner budget)) (postfixFrom (inner budget)) s ts P := by
  obtain ⟨start, s₁, hs₁, -, hpeek⟩ := (Reads.peek hs).bind_eq
  obtain ⟨o, s₂, hs₂, ho, hatom⟩ := (h s₁ hs₁).bind_eq
  obtain ⟨bound, s₃, hs₃, hbound, hremaining⟩ := (Reads.remaining hs₂).bind_eq
  refine ⟨start.span, bound, o, s₃, ?_, hs₃, Nat.le_of_eq hbound.symm, ho⟩
  exact ((hpeek _).trans (hatom _)).trans (hremaining _)

/-! ## Levels -/

/-- What the reader of a strength makes of tokens, with `budget` levels of nesting left. -/
def Goes (budget : Nat) (least : Strength) (toks : List Token) (P : Operand → Prop) : Prop :=
  ∀ (s : Input) (rest : List Token), s.tokens = toks ++ rest →
    match least with
    | .loosest | .comparison => Follows 1 rest → Reads (expression budget) s rest P
    | .sum => Follows 3 rest → Continues (sum (negation budget))
        (fun _ => chainFrom sumOp? (chain productOp? (negation budget))) s rest P
    | .product => Follows 4 rest → Continues (chain productOp? (negation budget))
        (fun _ => chainFrom productOp? (negation budget)) s rest P
    | .sign => Follows 4 rest → Reads (negation budget) s rest P
    | .postfixed =>
        rest ≠ [] → Continues (postfixed (inner budget)) (postfixFrom (inner budget)) s rest P
    | .atom => Reads (atom (inner budget)) s rest P

namespace Goes

variable {least : Strength} {rest : List Token}

/-- Where nothing goes on, the reader of a strength reads the tokens. -/
theorem reads (h : Goes budget least toks P) (hs : s.tokens = toks ++ rest)
    (hrest : Follows (max 1 least.rank) rest) : Reads (level budget least) s rest P := by
  have h := h s rest hs
  obtain ⟨t, ts, rfl⟩ := List.exists_cons_of_ne_nil hrest.ne_nil
  cases least with
  | loosest => exact h hrest
  | comparison => exact h hrest
  | sum => exact (h (hrest.mono (by decide))).chain_stop (sumOp?_eq_none hrest)
  | product => exact (h (hrest.mono (by decide))).chain_stop (productOp?_eq_none hrest)
  | sign => exact h hrest
  | postfixed => exact (h hrest.ne_nil).postfix_stop hrest
  | atom => exact h

/-- What is read by the next tighter reader is read. -/
theorem loosen (h : Goes budget least.tighter toks P) (htoks : toks ≠ [])
    (hminus : least = .sign → toks.head? ≠ some (.symbol .minus)) : Goes budget least toks P := by
  intro s rest hs
  cases least with
  | loosest => exact h s rest hs
  | comparison =>
    intro hrest
    obtain ⟨t, ts, rfl⟩ := List.exists_cons_of_ne_nil hrest.ne_nil
    show Reads (expression budget) _ _ _
    rw [expression_eq]
    refine (h.reads hs (hrest.mono (by decide))).bind fun left s₁ hs₁ hleft => ?_
    refine (Reads.peek hs₁).bind fun l s₂ hs₂ hl => ?_
    simp only [hl, comparison?_eq_none hrest]
    exact .pure hs₂ hleft
  | sum => exact fun hrest => .chain (h.reads hs hrest)
  | product => exact fun hrest => .chain (h.reads hs hrest)
  | sign =>
    intro hrest
    obtain ⟨t, ts, rfl⟩ := List.exists_cons_of_ne_nil htoks
    show Reads (negation budget) _ _ _
    rw [negation_eq]
    refine (Reads.peek hs).bind fun l s₁ hs₁ hl => ?_
    have ht : t ≠ .symbol .minus := fun ht => hminus rfl (by simp [ht])
    simp only [hl, ht, if_false]
    exact h.reads hs₁ (hrest.mono (by decide))
  | postfixed =>
    obtain ⟨t, ts, rfl⟩ := List.exists_cons_of_ne_nil htoks
    exact fun _ => .postfixed hs fun s hs => h s rest hs
  | atom => exact h s rest hs

/-- What is read by a tighter reader is read. -/
theorem loosen_to {strength : Strength} (h : Goes budget strength toks P) (htoks : toks ≠ [])
    (hminus : Strength.sign.rank < strength.rank → toks.head? ≠ some (.symbol .minus)) :
    ∀ (steps : Nat) (least : Strength), least.rank + steps = strength.rank →
      Goes budget least toks P
  | 0, _, hrank => Strength.eq_of_rank hrank ▸ h
  | steps + 1, least, hrank => by
    have htighter := least.rank_tighter (k := strength) (by omega)
    refine (loosen_to h htoks hminus steps least.tighter (by omega)).loosen htoks ?_
    rintro rfl
    exact hminus (by omega)

/-- What is read in parentheses is an atom. -/
theorem parens (h : Goes budget .loosest toks P) :
    Goes (budget + 1) .atom (.symbol .leftParen :: toks ++ [.symbol .rightParen]) P := by
  intro s rest hs
  show Reads (atom (inner (budget + 1))) s rest P
  refine (Reads.take hs (by simp)).bind fun l s₁ hs₁ hl => ?_
  simp only [hl]
  have hs₁ : s₁.tokens = toks ++ .symbol .rightParen :: rest := by simpa using hs₁
  have hclose : Follows 1 (.symbol .rightParen :: rest) := by
    show Token.grip (.symbol .rightParen) < 1
    decide
  refine (h s₁ _ hs₁ hclose).bind fun o s₂ hs₂ ho => ?_
  exact (Reads.expect hs₂ (by simp)).bind fun _ _ hrest _ => .pure hrest ho

end Goes

end Parser

end Stampline
