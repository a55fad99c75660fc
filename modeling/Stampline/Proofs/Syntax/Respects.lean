import Stampline.Proofs.Syntax.Ensures
import Stampline.Proofs.Syntax.Erase
import Stampline.Proofs.Syntax.Statements
import Stampline.Proofs.Token.Ordered
import Stampline.Proofs.Token.Padding

/-!
# Readers on lexemes that stand elsewhere

Two inputs with the same tokens are read alongside each other. Both readings succeed and have results
that are the same up to places, or both fail with the same fault at places that correspond. Where the
places of visible lexemes are the same too, so are results, places included.
-/

namespace Stampline

/-- How the places of two texts are compared. -/
structure Correspondence where
  /-- Which positions of the texts correspond. -/
  At : Position → Position → Prop
  /-- Whether visible lexemes may stand elsewhere. -/
  moved : Bool

variable {k : Correspondence}

/-! ## Places, lexemes and inputs -/

/-- Two spans correspond where they begin, and are the same unless lexemes stand elsewhere. -/
structure Span.Alike (k : Correspondence) (s s' : Span) : Prop where
  first : k.At s.first s'.first
  same : k.moved = false → s' = s

/-- Two spans that end somewhere. -/
theorem Span.Alike.through {s s' last last' : Span} (h : s.Alike k s')
    (hlast : k.moved = false → last' = last) : (s.through last).Alike k (s'.through last') :=
  ⟨h.first, fun hmoved => by rw [h.same hmoved, hlast hmoved]⟩

/-- Two lexemes are the same up to their places. -/
structure Lexeme.Alike (k : Correspondence) (l l' : Lexeme) : Prop where
  token : l'.token = l.token
  first : k.At l.span.first l'.span.first
  span : k.moved = false → l.token.isVisible = true → l'.span = l.span

theorem Lexeme.Alike.visible {l l' : Lexeme} (h : l.Alike k l') (hl : l.token.isVisible = true) :
    l.span.Alike k l'.span := ⟨h.first, fun hmoved => h.span hmoved hl⟩

/-- The next lexeme of an input. -/
def Input.head (s : Input) : Lexeme := s.rest.headD ⟨.endOfInput, .root⟩

/-- Two inputs are the same up to places, and have an end. -/
structure Input.Alike (k : Correspondence) (s s' : Input) : Prop where
  rest : List.Forall₂ (Lexeme.Alike k) s.rest s'.rest
  ends : ∃ l, s.rest.getLast? = some l ∧ l.token = .endOfInput
  last : k.moved = false → s'.last = s.last

namespace Input.Alike

variable {s s' : Input}

/-- There is a next lexeme. -/
theorem exists_cons (h : s.Alike k s') : ∃ l l' rest rest', s.rest = l :: rest ∧
    s'.rest = l' :: rest' ∧ l.Alike k l' ∧ List.Forall₂ (Lexeme.Alike k) rest rest' := by
  obtain ⟨l, hlast, -⟩ := h.ends
  obtain ⟨first, rest, hrest⟩ := List.exists_cons_of_ne_nil
    (List.getLast?_isSome.1 (by rw [hlast]; rfl) : s.rest ≠ [])
  have hall := h.rest
  rw [hrest] at hall
  obtain ⟨first', rest', hfirst, hrest', hs'⟩ := List.forall₂_cons_left_iff.1 hall
  exact ⟨first, first', rest, rest', hrest, hs', hfirst, hrest'⟩

theorem head (h : s.Alike k s') : s.head.Alike k s'.head := by
  obtain ⟨l, l', rest, rest', hs, hs', hl, -⟩ := h.exists_cons
  simpa [Input.head, hs, hs'] using hl

theorem second (h : s.Alike k s') :
    (s'.rest.tail.headD ⟨.endOfInput, .root⟩).token =
      (s.rest.tail.headD ⟨.endOfInput, .root⟩).token := by
  obtain ⟨l, l', rest, rest', hs, hs', -, hrest⟩ := h.exists_cons
  rw [hs, hs', List.tail_cons, List.tail_cons]
  cases hrest with
  | nil => rfl
  | cons hl _ => exact hl.token

theorem advance (h : s.Alike k s') : s.advance.Alike k s'.advance := by
  obtain ⟨l, l', rest, rest', hs, hs', hl, hrest⟩ := h.exists_cons
  obtain ⟨last, hlast, hend⟩ := h.ends
  unfold Input.advance
  simp only [hs, hs', hl.token]
  split
  · exact h
  · rename_i hmore
    refine ⟨hrest, ?_, fun hmoved => ?_⟩
    · cases rest with
      | nil =>
        rw [hs] at hlast
        obtain rfl := Option.some.inj hlast
        exact absurd hend hmore
      | cons next rest => exact ⟨last, by rw [← hlast, hs, List.getLast?_cons_cons], hend⟩
    · show (if _ then _ else _) = (if _ then _ else _)
      cases hlayout : l.token.isLayout with
      | true => exact h.last hmoved
      | false =>
        refine hl.span hmoved ?_
        cases htoken : l.token <;> first | rfl | simp_all [Token.isLayout]

end Input.Alike

/-! ## The calculus -/

/-- Where a fault is found. -/
def ParseError.position (e : ParseError) : Position := toLex (e.line, e.col)

namespace Parser

variable {α β : Type} {R : α → α → Prop} {Q : β → β → Prop} {p p' : Parser α}
  {f f' : α → Parser β} {s s' : Input}

/-- Two readings agree: both have results, which stand in the relation `R`, or both have failed in
the same way. -/
inductive Agree (k : Correspondence) (R : α → α → Prop) :
    Except ParseError (α × Input) → Except ParseError (α × Input) → Prop where
  | ok {a a' s s'} (ha : R a a') (hs : s.Alike k s') : Agree k R (.ok (a, s)) (.ok (a', s'))
  | error {e e'} (hfault : e'.fault = e.fault) (hposition : k.At e.position e'.position) :
      Agree k R (.error e) (.error e')

/-- Two readers agree on inputs that are the same up to places. -/
def Respects (k : Correspondence) (R : α → α → Prop) (p p' : Parser α) : Prop :=
  ∀ s s', s.Alike k s' → Agree k R (p s) (p' s')

theorem Agree.bind (hp : Agree k R (p s) (p' s'))
    (hf : ∀ a t a' t', p s = .ok (a, t) → R a a' → t.Alike k t' → Agree k Q (f a t) (f' a' t')) :
    Agree k Q ((p >>= f) s) ((p' >>= f') s') := by
  show Agree k Q (p s >>= fun r => f r.1 r.2) (p' s' >>= fun r => f' r.1 r.2)
  generalize hr : p s = r at hp
  generalize p' s' = r' at hp
  cases hp with
  | ok ha hs => exact hf _ _ _ _ hr ha hs
  | error hfault hposition => exact .error hfault hposition

namespace Respects

theorem bind (hp : Respects k R p p') (hf : ∀ a a', R a a' → Respects k Q (f a) (f' a')) :
    Respects k Q (p >>= f) (p' >>= f') := fun s s' hs =>
  (hp s s' hs).bind fun a t a' t' _ ha ht => hf a a' ha t t' ht

theorem pure {a a' : α} (ha : R a a') : Respects k R (Pure.pure a) (Pure.pure a') :=
  fun _ _ hs => .ok ha hs

theorem failAt {span span' : Span} (h : k.At span.first span'.first) (fault : ParseFault) :
    Respects k R (failAt span fault) (failAt span' fault) := fun _ _ _ => .error rfl h

theorem peek : Respects k (Lexeme.Alike k) peek peek := fun _ _ hs => .ok hs.head hs

theorem peekSecond : Respects k (fun t t' => t' = t) peekSecond peekSecond :=
  fun _ _ hs => .ok hs.second hs

theorem remaining : Respects k (List.Forall₂ (Lexeme.Alike k)) remaining remaining :=
  fun _ _ hs => .ok hs.rest hs

theorem lastSpan : Respects k (fun span span' => k.moved = false → span' = span) lastSpan lastSpan :=
  fun _ _ hs => .ok hs.last hs

theorem fail (fault : ParseFault) : Respects k R (fail fault) (fail fault) :=
  peek.bind fun _ _ hl => failAt hl.first fault

theorem take : Respects k (Lexeme.Alike k) take take := fun _ _ hs => .ok hs.head hs.advance

theorem eat (t : Token) : Respects k (fun b b' => b' = b) (eat t) (eat t) := by
  refine peek.bind fun l l' hl => ?_
  rw [hl.token]
  split
  · exact take.bind fun _ _ _ => pure rfl
  · exact pure rfl

theorem expect (t : Token) : Respects k (fun _ _ => True) (expect t) (expect t) := by
  refine peek.bind fun l l' hl => ?_
  rw [hl.token]
  split
  · exact take.bind fun _ _ _ => pure trivial
  · exact failAt hl.first _

theorem expectName : Respects k (fun id id' => id' = id) expectName expectName := by
  refine peek.bind fun l l' hl => ?_
  rw [hl.token]
  split
  · exact take.bind fun _ _ _ => pure rfl
  · exact failAt hl.first _

theorem nested {q : Option (Parser α)} (h : ∀ p ∈ q, Respects k R p p) :
    Respects k R (nested q) (nested q) := by
  cases q with
  | none => exact fail .tooNested
  | some p => exact h p rfl

end Respects

/-! ### The next lexeme -/

/-- What a reader succeeds on begins with a visible lexeme. -/
def BeginsVisible (p : Parser α) : Prop :=
  ∀ s a s', p s = .ok (a, s') → s.head.token.isVisible = true

theorem BeginsVisible.bind (h : BeginsVisible p) : BeginsVisible (p >>= f) := fun s _ _ hs => by
  obtain ⟨a, s₁, hp, -⟩ := bind_eq_ok hs
  exact h s a s₁ hp

/-- Where a reader looks at the next lexeme first, what follows may depend on it. -/
theorem BeginsVisible.peek_bind {f : Lexeme → Parser β}
    (h : ∀ l s b s', f l s = .ok (b, s') → s.head = l → l.token.isVisible = true) :
    BeginsVisible (peek >>= f) := fun s b s' hs => by
  obtain ⟨l, s₁, hpeek, hrest⟩ := bind_eq_ok hs
  obtain ⟨rfl, rfl⟩ := Prod.mk.inj (Except.ok.inj hpeek)
  exact h s.head s b s' hrest rfl

/-- Two readers agree on inputs that are the same up to places and begin with the lexeme `l`. -/
def RespectsAt (l : Lexeme) (k : Correspondence) (R : α → α → Prop) (p p' : Parser α) : Prop :=
  ∀ s s', s.Alike k s' → s.head = l → Agree k R (p s) (p' s')

/-- Two readers agree on inputs that are the same up to places and begin with a visible lexeme. -/
def RespectsVisible (k : Correspondence) (R : α → α → Prop) (p p' : Parser α) : Prop :=
  ∀ s s', s.Alike k s' → s.head.token.isVisible = true → Agree k R (p s) (p' s')

theorem Respects.at (h : Respects k R p p') (l : Lexeme) : RespectsAt l k R p p' :=
  fun s s' hs _ => h s s' hs

theorem RespectsVisible.at (h : RespectsVisible k R p p') {l : Lexeme}
    (hl : l.token.isVisible = true) : RespectsAt l k R p p' := fun s s' hs hhead =>
  h s s' hs (hhead ▸ hl)

/-- The next lexeme stays known after it was looked at. -/
theorem Respects.peek_bind {f f' : Lexeme → Parser β}
    (hf : ∀ l l', l.Alike k l' → RespectsAt l k Q (f l) (f' l')) :
    Respects k Q (Parser.peek >>= f) (Parser.peek >>= f') := fun s s' hs =>
  hf _ _ hs.head s s' hs rfl

/-- Where a reader succeeds that begins with a visible lexeme, the next lexeme was visible. -/
theorem RespectsAt.bind {l : Lexeme} (hp : Respects k R p p') (hbegins : BeginsVisible p)
    (hf : l.token.isVisible = true → ∀ a a', R a a' → Respects k Q (f a) (f' a')) :
    RespectsAt l k Q (p >>= f) (p' >>= f') := by
  rintro s s' hs rfl
  exact (hp s s' hs).bind fun a t a' t' ha hR ht => hf (hbegins s a t ha) a a' hR t t' ht

/-- A visible lexeme is taken. -/
theorem RespectsVisible.take_bind {f f' : Lexeme → Parser β}
    (hf : ∀ l l', l.span.Alike k l'.span → Respects k Q (f l) (f' l')) :
    RespectsVisible k Q (take >>= f) (take >>= f') := fun _ _ hs hvisible =>
  hf _ _ (hs.head.visible hvisible) _ _ hs.advance

end Parser

/-! ## Trees -/

/-- Two trees are the same up to places, which `erase` takes out, and the same altogether unless
lexemes stand elsewhere. -/
structure AlikeBut {α β : Type} (erase : α → β) (k : Correspondence) (a a' : α) : Prop where
  erased : erase a' = erase a
  same : k.moved = false → a' = a

theorem AlikeBut.refl {α β : Type} {erase : α → β} (a : α) : AlikeBut erase k a a :=
  ⟨rfl, fun _ => rfl⟩

/-- Two expressions are the same up to places, and begin at places that correspond. -/
structure Expr.Alike (k : Correspondence) (e e' : Expr) : Prop extends AlikeBut Expr.erase k e e' where
  span : Option.Rel (Span.Alike k) e.span e'.span

/-- Two blocks, or what else a list of statements is, are the same up to places. -/
abbrev BlockAlike (k : Correspondence) : List Stmt → List Stmt → Prop := AlikeBut eraseBlock k

namespace Parser

/-- Two operands are the same up to places. -/
structure Operand.Alike (k : Correspondence) (o o' : Operand) : Prop where
  expr : o.expr.Alike k o'.expr
  height : o'.height = o.height

/-- Two runs of arguments are the same up to places. -/
structure Arguments.Alike (k : Correspondence) (a a' : Arguments) : Prop where
  args : AlikeBut eraseExprs k a.args a'.args
  keywords : AlikeBut eraseKeywords k a.keywords a'.keywords
  height : a'.height = a.height

theorem Span.join_alike {span span' other other' : Option Span}
    (h : Option.Rel (Span.Alike k) span span') (hother : Option.Rel (Span.Alike k) other other') :
    Option.Rel (Span.Alike k) (Span.join span other) (Span.join span' other') := by
  cases h with
  | none => exact hother
  | some h =>
    cases hother with
    | none => exact .some h
    | some hother => exact .some (h.through hother.same)

theorem respects_node {e e' : Expr} (he : e.Alike k e') (height : Nat) :
    Respects k (Operand.Alike k) (node e height) (node e' height) := by
  unfold node
  split
  · refine Respects.peek.bind fun l l' hl => ?_
    have hspan : k.At (e.span.getD l.span).first (e'.span.getD l'.span).first := by
      have h := he.span
      generalize e.span = span at h
      generalize e'.span = span' at h
      cases h with
      | none => exact hl.first
      | some h => exact h.first
    exact (Respects.failAt (R := fun _ _ => False) hspan _).bind fun _ _ h => h.elim
  · exact .pure ⟨he, rfl⟩

/-- A leaf that is read from one lexeme. -/
theorem alike_leaf (build : Option Span → Expr) {span span' : Span} (hspan : span.Alike k span')
    (herase : ∀ span, (build span).erase = (build none).erase) (hat : ∀ span, (build span).span = span) :
    Operand.Alike k ⟨build span, 1⟩ ⟨build span', 1⟩ := by
  refine ⟨⟨⟨by rw [herase, herase (some span)], fun hmoved => by rw [hspan.same hmoved]⟩, ?_⟩, rfl⟩
  rw [hat, hat]
  exact .some hspan

theorem respects_join (build : Option Span → Expr → Expr → Expr) {left right left' right' : Operand}
    (hleft : left.Alike k left') (hright : right.Alike k right')
    (herase : ∀ span (e f : Expr), (build span e f).erase = build none e.erase f.erase)
    (hat : ∀ span e f, (build span e f).span = span) :
    Respects k (Operand.Alike k) (join build left right) (join build left' right') := by
  unfold join
  rw [hleft.height, hright.height]
  refine respects_node ⟨⟨?_, fun hmoved => ?_⟩, ?_⟩ _
  · rw [herase, herase, hleft.expr.erased, hright.expr.erased]
  · rw [hleft.expr.same hmoved, hright.expr.same hmoved]
  · rw [hat, hat]
    exact Span.join_alike hleft.expr.span hright.expr.span

theorem respects_atom {inner : Option (Parser Operand)}
    (hinner : ∀ p ∈ inner, Respects k (Operand.Alike k) p p) :
    Respects k (Operand.Alike k) (atom inner) (atom inner) := by
  refine Respects.take.bind fun start start' hstart => ?_
  obtain ⟨token, span⟩ := start
  obtain ⟨token', span'⟩ := start'
  obtain rfl : token' = token := hstart.token
  cases token' with
  | integer value =>
    exact .pure (alike_leaf (.number · value) (hstart.visible rfl) (fun _ => rfl) fun _ => rfl)
  | text value =>
    exact .pure (alike_leaf (.text · value) (hstart.visible rfl) (fun _ => rfl) fun _ => rfl)
  | name id =>
    exact .pure (alike_leaf (.name · id) (hstart.visible rfl) (fun _ => rfl) fun _ => rfl)
  | symbol s =>
    cases s with
    | leftParen =>
      exact (Respects.nested hinner).bind fun o o' ho => (Respects.expect _).bind fun _ _ _ => .pure ho
    | _ => exact .failAt hstart.first _
  | _ => exact .failAt hstart.first _

theorem respects_chainFrom {op? : Token → Option BinaryOp} {operand : Parser Operand}
    (hoperand : Respects k (Operand.Alike k) operand operand) {bound bound' : List Lexeme}
    (hbound : List.Forall₂ (Lexeme.Alike k) bound bound') : ∀ {left left' : Operand},
      left.Alike k left' → Respects k (Operand.Alike k) (chainFrom op? operand bound left)
        (chainFrom op? operand bound' left') := by
  induction hbound with
  | nil => exact fun hleft => .pure hleft
  | cons _ _ ih =>
    intro left left' hleft
    refine Respects.peek.bind fun l l' hl => ?_
    rw [hl.token]
    split
    · exact .pure hleft
    · rename_i op _
      exact Respects.take.bind fun _ _ _ => hoperand.bind fun right right' hright =>
        (respects_join (.binary · op) hleft hright (fun _ _ _ => rfl)
          fun _ _ _ => rfl).bind fun o o' ho => ih ho

theorem respects_chain {op? : Token → Option BinaryOp} {operand : Parser Operand}
    (hoperand : Respects k (Operand.Alike k) operand operand) :
    Respects k (Operand.Alike k) (chain op? operand) (chain op? operand) :=
  hoperand.bind fun _ _ hleft => Respects.remaining.bind fun _ _ hbound =>
    respects_chainFrom hoperand hbound hleft

theorem respects_compared {operand : Parser Operand}
    (hoperand : Respects k (Operand.Alike k) operand operand) :
    Respects k (Operand.Alike k) (compared operand) (compared operand) := by
  have hsum : Respects k (Operand.Alike k) (sum operand) (sum operand) :=
    respects_chain (respects_chain hoperand)
  refine hsum.bind fun left left' hleft => Respects.peek.bind fun l l' hl => ?_
  rw [hl.token]
  split
  · exact .pure hleft
  · rename_i op _
    refine Respects.take.bind fun _ _ _ => hsum.bind fun right right' hright =>
      Respects.peek.bind fun next next' hnext => ?_
    rw [hnext.token]
    split
    · exact (Respects.fail (R := fun _ _ => False) _).bind fun _ _ h => h.elim
    · exact respects_join (.compare · op) hleft hright (fun _ _ _ => rfl) fun _ _ _ => rfl

/-! ### Arguments -/

theorem eraseExprs_append (es fs : List Expr) : eraseExprs (es ++ fs) = eraseExprs es ++ eraseExprs fs := by
  simp only [eraseExprs_eq_map, List.map_append]

theorem eraseKeywords_append (ks ls : List Keyword) :
    eraseKeywords (ks ++ ls) = eraseKeywords ks ++ eraseKeywords ls := by
  simp only [eraseKeywords_eq_map, List.map_append]

/-- The parameters that keyword arguments name do not depend on where they stand. -/
theorem any_name_eq {ks ks' : List Keyword} (h : eraseKeywords ks' = eraseKeywords ks) (id : String) :
    ks'.any (·.name == id) = ks.any (·.name == id) := by
  have hmap : ∀ ks : List Keyword, ks.any (·.name == id) = (eraseKeywords ks).any (·.name == id) := by
    intro ks
    rw [eraseKeywords_eq_map, List.any_map]
    simp only [Function.comp_def, Keyword.name_erase]
  rw [hmap ks', hmap ks, h]

theorem isEmpty_eq {ks ks' : List Keyword} (h : eraseKeywords ks' = eraseKeywords ks) :
    ks'.isEmpty = ks.isEmpty := by
  have hmap : ∀ ks : List Keyword, ks.isEmpty = (eraseKeywords ks).isEmpty := by
    intro ks
    rw [eraseKeywords_eq_map, List.isEmpty_map]
  rw [hmap ks', hmap ks, h]

theorem respects_positional {value : Parser Operand} {before before' : Arguments}
    {start start' : Lexeme} (hvalue : Respects k (Operand.Alike k) value value)
    (hbefore : before.Alike k before') (hstart : start.Alike k start') :
    Respects k (Arguments.Alike k) (positional value before start.span)
      (positional value before' start'.span) := by
  unfold positional
  rw [isEmpty_eq hbefore.keywords.erased]
  split
  · exact (Respects.failAt (R := fun _ _ => False) hstart.first _).bind fun _ _ h => h.elim
  · refine hvalue.bind fun v v' hv => .pure ⟨⟨?_, fun hmoved => ?_⟩, hbefore.keywords, ?_⟩
    · simp only [eraseExprs_append, hbefore.args.erased, eraseExprs, hv.expr.erased]
    · rw [hbefore.args.same hmoved, hv.expr.same hmoved]
    · simp only [hbefore.height, hv.height]

theorem respects_argument {value : Parser Operand} {before before' : Arguments}
    (hvalue : Respects k (Operand.Alike k) value value) (hbefore : before.Alike k before') :
    Respects k (Arguments.Alike k) (argument value before) (argument value before') := by
  refine Respects.peek.bind fun start start' hstart => Respects.peekSecond.bind fun second _ hsecond => ?_
  subst hsecond
  rw [hstart.token]
  split
  · rename_i id hid
    refine Respects.take.bind fun _ _ _ => Respects.take.bind fun _ _ _ => ?_
    rw [any_name_eq hbefore.keywords.erased]
    split
    · exact (Respects.failAt (R := fun _ _ => False) hstart.first _).bind fun _ _ h => h.elim
    · refine hvalue.bind fun v v' hv => Respects.lastSpan.bind fun last last' hlast => .pure ?_
      have hspan : start.span.Alike k start'.span := hstart.visible (by rw [hid]; rfl)
      refine ⟨hbefore.args, ⟨?_, fun hmoved => ?_⟩, ?_⟩
      · simp only [eraseKeywords_append, hbefore.keywords.erased, eraseKeywords, Keyword.erase,
          hv.expr.erased]
      · rw [hbefore.keywords.same hmoved, hspan.same hmoved, hlast hmoved, hv.expr.same hmoved]
      · simp only [hbefore.height, hv.height]
  · exact respects_positional hvalue hbefore hstart

theorem respects_argumentsFrom {value : Parser Operand}
    (hvalue : Respects k (Operand.Alike k) value value) {bound bound' : List Lexeme}
    (hbound : List.Forall₂ (Lexeme.Alike k) bound bound') : ∀ {before before' : Arguments},
      before.Alike k before' → Respects k (Arguments.Alike k) (argumentsFrom value bound before)
        (argumentsFrom value bound' before') := by
  induction hbound with
  | nil => exact fun hbefore => .pure hbefore
  | cons _ _ ih =>
    intro before before' hbefore
    refine Respects.peek.bind fun l l' hl => ?_
    rw [hl.token]
    split
    · exact .pure hbefore
    · refine (respects_argument hvalue hbefore).bind fun now now' hnow =>
        (Respects.eat _).bind fun more _ hmore => ?_
      subst hmore
      split
      · exact ih hnow
      · exact .pure hnow

theorem respects_arguments {value : Parser Operand}
    (hvalue : Respects k (Operand.Alike k) value value) :
    Respects k (Arguments.Alike k) (arguments value) (arguments value) :=
  Respects.remaining.bind fun _ _ hbound =>
    (respects_argumentsFrom hvalue hbound ⟨.refl _, .refl _, rfl⟩).bind fun _ _ hall =>
      (Respects.expect _).bind fun _ _ _ => .pure hall

/-! ### Calls, attributes and signs -/

theorem respects_postfixFrom {inner : Option (Parser Operand)}
    (hinner : ∀ p ∈ inner, Respects k (Operand.Alike k) p p) {start start' : Span}
    (hstart : start.Alike k start') {bound bound' : List Lexeme}
    (hbound : List.Forall₂ (Lexeme.Alike k) bound bound') : ∀ {operand operand' : Operand},
      operand.Alike k operand' → Respects k (Operand.Alike k) (postfixFrom inner start bound operand)
        (postfixFrom inner start' bound' operand') := by
  have harguments : ∀ p ∈ inner.map arguments, Respects k (Arguments.Alike k) p p := by
    intro p hp
    obtain ⟨value, hvalue, rfl⟩ := Option.map_eq_some_iff.1 hp
    exact respects_arguments (hinner value hvalue)
  induction hbound with
  | nil => exact fun hoperand => .pure hoperand
  | cons _ _ ih =>
    intro operand operand' hoperand
    refine Respects.peek.bind fun l l' hl => ?_
    rw [hl.token]
    split
    · refine Respects.take.bind fun _ _ _ => (Respects.nested harguments).bind fun a a' ha =>
        Respects.lastSpan.bind fun last last' hlast => ?_
      rw [hoperand.height, ha.height]
      refine (respects_node ⟨⟨?_, fun hmoved => ?_⟩, .some (hstart.through hlast)⟩ _).bind
        fun o o' ho => ih ho
      · simp only [Expr.erase, hoperand.expr.erased, ha.args.erased, ha.keywords.erased]
      · rw [hoperand.expr.same hmoved, ha.args.same hmoved, ha.keywords.same hmoved,
          hstart.same hmoved, hlast hmoved]
    · refine Respects.take.bind fun _ _ _ => Respects.expectName.bind fun id id' hid =>
        Respects.lastSpan.bind fun last last' hlast => ?_
      subst hid
      rw [hoperand.height]
      refine (respects_node ⟨⟨?_, fun hmoved => ?_⟩, .some (hstart.through hlast)⟩ _).bind
        fun o o' ho => ih ho
      · simp only [Expr.erase, hoperand.expr.erased]
      · rw [hoperand.expr.same hmoved, hstart.same hmoved, hlast hmoved]
    · exact .pure hoperand

theorem beginsVisible_atom (inner : Option (Parser Operand)) : BeginsVisible (atom inner) := by
  intro s o s' h
  obtain ⟨start, s₁, htake, hrest⟩ := bind_eq_ok h
  obtain ⟨rfl, rfl⟩ := Prod.mk.inj (Except.ok.inj htake)
  cases htoken : s.head.token with
  | newline | indent | dedent | endOfInput =>
    replace htoken : (s.rest.headD ⟨.endOfInput, .root⟩).token = _ := htoken
    simp only [htoken] at hrest
    cases hrest
  | _ => rfl

theorem respects_postfixed {inner : Option (Parser Operand)}
    (hinner : ∀ p ∈ inner, Respects k (Operand.Alike k) p p) :
    Respects k (Operand.Alike k) (postfixed inner) (postfixed inner) := by
  refine Respects.peek_bind fun start start' hstart => .bind (respects_atom hinner)
    (beginsVisible_atom inner) fun hvisible operand operand' hoperand => ?_
  exact Respects.remaining.bind fun _ _ hbound =>
    respects_postfixFrom hinner (hstart.visible hvisible) hbound hoperand

theorem beginsVisible_postfixed (inner : Option (Parser Operand)) : BeginsVisible (postfixed inner) :=
  .peek_bind fun _ s o s' h hhead => hhead ▸ (beginsVisible_atom inner).bind s o s' h

theorem respects_signed {deeper inner : Option (Parser Operand)}
    (hdeeper : ∀ p ∈ deeper, Respects k (Operand.Alike k) p p)
    (hinner : ∀ p ∈ inner, Respects k (Operand.Alike k) p p) :
    Respects k (Operand.Alike k) (signed deeper inner) (signed deeper inner) := by
  refine Respects.peek.bind fun start start' hstart => ?_
  rw [hstart.token]
  split
  · rename_i hminus
    have hspan : start.span.Alike k start'.span := hstart.visible (by rw [hminus]; rfl)
    refine Respects.take.bind fun _ _ _ => (Respects.nested hdeeper).bind fun o o' ho =>
      Respects.lastSpan.bind fun last last' hlast => ?_
    rw [ho.height]
    refine respects_node ⟨⟨?_, fun hmoved => ?_⟩, .some (hspan.through hlast)⟩ _
    · simp only [Expr.erase, ho.expr.erased]
    · rw [ho.expr.same hmoved, hspan.same hmoved, hlast hmoved]
  · exact respects_postfixed hinner

theorem beginsVisible_signed (deeper inner : Option (Parser Operand)) :
    BeginsVisible (signed deeper inner) := by
  refine .peek_bind fun start s o s' h hhead => ?_
  split at h
  · rename_i hminus
    rw [hminus]
    rfl
  · exact hhead ▸ beginsVisible_postfixed inner s o s' h

/-- Every expression is read alike. -/
theorem respects_expression : ∀ budget : Nat,
    Respects k (Operand.Alike k) (expression budget) (expression budget) ∧
      Respects k (Operand.Alike k) (negation budget) (negation budget)
  | 0 => by
    have hnegation : Respects k (Operand.Alike k) (negation 0) (negation 0) := by
      rw [negation_eq]
      exact respects_signed (by simp [deeper]) (by simp [inner])
    refine ⟨?_, hnegation⟩
    rw [expression_eq]
    exact respects_compared hnegation
  | b + 1 => by
    obtain ⟨hexpression, hdeeper⟩ := respects_expression b
    have hnegation : Respects k (Operand.Alike k) (negation (b + 1)) (negation (b + 1)) := by
      rw [negation_eq]
      refine respects_signed (fun p hp => ?_) fun p hp => ?_
      · obtain rfl := Option.some.inj hp
        exact hdeeper
      · obtain rfl := Option.some.inj hp
        exact hexpression
    refine ⟨?_, hnegation⟩
    rw [expression_eq]
    exact respects_compared hnegation

theorem beginsVisible_expression (budget : Nat) : BeginsVisible (expression budget) := by
  rw [expression_eq, negation_eq]
  exact (((beginsVisible_signed _ _).bind.bind).bind)

end Parser

end Stampline
