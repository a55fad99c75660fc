import Stampline.Proofs.Syntax.Accepted

/-!
# The descent with its depth counter

`Parser` hands down the levels that are left, so that it recurses on them. `Descent` is another way of
reading, with a counter that is read and set where a level is taken and given back. Every such call is
noted with the values of the counter around it, every operand is noted as it is made, and the notes
outlive a failure. What is handed down in it is some fuel that has nothing to do with the counter.

`Mirrors` says of a reader with a counter that it reads what a `Parser` reads and keeps the counter in
order. With enough fuel the whole descent does, and the fuel is never used up.
-/

namespace Stampline

open Stampline.Parser (Operand Nesting)

/-- A call that reads one level deeper, with the depth before it, at its beginning, and behind it. A
call that is refused stays at the depth that it finds. -/
structure NestedCall where
  before : Nat
  within : Nat
  after : Nat
deriving DecidableEq, Repr

/-- What the descent keeps count of. -/
structure Gauge where
  /-- The depth of the descent. -/
  depth : Nat := 0
  /-- The calls one level deeper that have ended, the last one first. -/
  calls : List NestedCall := []
  /-- The operands that were made, the last one first. -/
  made : List Operand := []
  /-- Whether the fuel was used up. -/
  spent : Bool := false

/-- A reader of syntax that keeps count. A failure leaves what was counted. -/
abbrev Descent (α : Type) := StateT Input (ExceptT ParseError (StateM Gauge)) α

/-- What neither nests nor makes an operand is read as before. -/
instance : MonadLift Parser Descent := ⟨fun p s g => (p s, g)⟩

/-- Syntax nests unless the depth is at its limit. The counter is set back behind what is read one level
deeper, and there is not always fuel to read it. -/
instance : Nesting Descent where
  nested x? := fun s g =>
    if maxNesting ≤ g.depth then
      (Parser.fail .tooNested s, { g with calls := ⟨g.depth, g.depth, g.depth⟩ :: g.calls })
    else
      match x? with
      | none => (Parser.fail .tooNested s, { g with spent := true })
      | some x =>
        let entered := { g with depth := g.depth + 1 }
        let (result, left) := x s entered
        let back := { left with depth := left.depth - 1 }
        (result, { back with calls := ⟨g.depth, entered.depth, back.depth⟩ :: back.calls })
  make o := fun s g => (.ok (o, s), { g with made := o :: g.made })

/-- The program that lexemes make, and what was counted on the way. -/
def descend (fuel : Nat) (lexemes : List Lexeme) : Except ParseError Program × Gauge :=
  let (result, g) :=
    (Parser.programFrom (Parser.statement fuel) lexemes [] : Descent Program) ⟨lexemes, .root⟩ {}
  (result.map (·.1), g)

/-! ## Readers with and without a counter -/

/-- A call one level deeper stays within the limit and leaves the depth as it found it. -/
structure NestedCall.Bounded (c : NestedCall) : Prop where
  within_le : c.within ≤ maxNesting
  after_eq : c.after = c.before

/-- An operand comes with the height of its tree, which is within the limit. -/
structure Measured (o : Operand) : Prop where
  height_eq : o.height = o.expr.height
  height_le : o.height ≤ maxNesting

/-- The gauge stands at a depth and has noted the operands `made`, and all is well with what it has
noted. -/
structure Gauge.InOrder (g : Gauge) (depth : Nat) (made : List Operand) : Prop where
  depth_eq : g.depth = depth
  made_eq : g.made = made
  measured : ∀ o ∈ made, Measured o
  bounded : ∀ c ∈ g.calls, c.Bounded
  unspent : g.spent = false

namespace Descent

variable {α β : Type}

/-- At a depth, and with the operands `made` noted, a reader with a counter reads what a reader without
one reads. It leaves the counter at that depth. Where it succeeds, `P` holds of the operands noted then
and of the result. -/
def Mirrors (depth : Nat) (made : List Operand) (x : Descent α) (p : Parser α)
    (P : List Operand → α → Prop) : Prop :=
  ∀ (s : Input) (g : Gauge), g.InOrder depth made → ∃ g' made', x s g = (p s, g') ∧
    g'.InOrder depth made' ∧ made ⊆ made' ∧ ∀ a s', p s = .ok (a, s') → P made' a

namespace Mirrors

variable {depth : Nat} {made : List Operand} {x y : Descent α} {p q : Parser α} {f : α → Descent β}
  {h : α → Parser β} {P P' : List Operand → α → Prop} {Q : List Operand → β → Prop}

theorem imp (hx : Mirrors depth made x p P) (himp : ∀ made a, P made a → P' made a) :
    Mirrors depth made x p P' := by
  intro s g hg
  obtain ⟨g', made', hxs, hg', hsub, hP⟩ := hx s g hg
  exact ⟨g', made', hxs, hg', hsub, fun a s' hps => himp made' a (hP a s' hps)⟩

theorem pure {a : α} (ha : P made a) : Mirrors depth made (Pure.pure a) (Pure.pure a) P := by
  refine fun _ g hg => ⟨g, made, rfl, hg, List.Subset.refl _, fun b _ hb => ?_⟩
  obtain ⟨rfl, -⟩ := Prod.mk.inj (Except.ok.inj hb)
  exact ha

theorem bind (hx : Mirrors depth made x p P) (hf : ∀ made' a, made ⊆ made' → P made' a →
    Mirrors depth made' (f a) (h a) Q) : Mirrors depth made (x >>= f) (p >>= h) Q := by
  intro s g hg
  obtain ⟨g₁, made₁, hxs, hg₁, hsub, hP⟩ := hx s g hg
  show ∃ g' made', (ExceptT.bindCont (fun r => f r.1 r.2) (x s g).1 : StateM Gauge _) (x s g).2 =
    (p s >>= fun r => h r.1 r.2, g') ∧ _
  rw [hxs]
  cases hps : p s with
  | error e =>
    -- Nothing comes behind a failure, but what was counted up to it stays.
    refine ⟨g₁, made₁, rfl, hg₁, hsub, fun b s' hb => ?_⟩
    obtain ⟨a, s₁, hps', -⟩ := Parser.bind_eq_ok hb
    cases hps.symm.trans hps'
  | ok r =>
    obtain ⟨a, s₁⟩ := r
    obtain ⟨g₂, made₂, hfs, hg₂, hsub', hQ⟩ := hf made₁ a hsub (hP a s₁ hps) s₁ g₁ hg₁
    refine ⟨g₂, made₂, hfs, hg₂, List.Subset.trans hsub hsub', fun b s' hb => ?_⟩
    obtain ⟨a', s₁', hps', hb⟩ := Parser.bind_eq_ok hb
    obtain ⟨rfl, rfl⟩ := Prod.mk.inj (Except.ok.inj (hps.symm.trans hps'))
    exact hQ b s' hb

/-- What is read without a counter leaves the gauge as it is. -/
theorem lift_bind (hf : ∀ a, Mirrors depth made (f a) (h a) Q) :
    Mirrors depth made (liftM p >>= f) (p >>= h) Q := by
  have hlift : Mirrors depth made (liftM p) p fun made' _ => made' = made :=
    fun _ g hg => ⟨g, made, rfl, hg, List.Subset.refl _, fun _ _ _ => rfl⟩
  refine hlift.bind fun made' a _ hmade => ?_
  rw [hmade]
  exact hf a

theorem map {F : α → β} (hx : Mirrors depth made x p fun made a => Q made (F a)) :
    Mirrors depth made (F <$> x) (F <$> p) Q := by
  rw [← bind_pure_comp, ← bind_pure_comp]
  exact hx.bind fun made' a _ ha => .pure ha

theorem ite {c : Prop} [Decidable c] (hx : c → Mirrors depth made x p P)
    (hy : ¬c → Mirrors depth made y q P) :
    Mirrors depth made (if c then x else y) (if c then p else q) P := by
  by_cases hc : c
  · rw [if_pos hc, if_pos hc]
    exact hx hc
  · rw [if_neg hc, if_neg hc]
    exact hy hc

theorem failAt {span : Span} {fault : ParseFault} :
    Mirrors depth made (liftM (Parser.failAt span fault : Parser α)) (Parser.failAt span fault) P :=
  fun _ g hg => ⟨g, made, rfl, hg, List.Subset.refl _, fun _ _ ha => nomatch ha⟩

/-- Nothing comes behind a failure. -/
theorem failAt_bind {span : Span} {fault : ParseFault} : Mirrors depth made
    (liftM (Parser.failAt span fault : Parser α) >>= f) (Parser.failAt span fault >>= h) Q :=
  fun _ g hg => ⟨g, made, rfl, hg, List.Subset.refl _, fun _ _ hb => nomatch hb⟩

theorem make {o : Operand} {R : List Operand → Operand → Prop} (ho : Measured o)
    (hR : R (o :: made) o) : Mirrors depth made (Nesting.make o) (Nesting.make o) R := by
  refine fun s g hg => ⟨_, o :: made, rfl, ?_, List.subset_cons_self o made, fun o' s' ho' => ?_⟩
  · exact ⟨hg.depth_eq, congrArg _ hg.made_eq, List.forall_mem_cons.2 ⟨ho, hg.measured⟩, hg.bounded,
      hg.unspent⟩
  · obtain ⟨rfl, -⟩ := Prod.mk.inj (Except.ok.inj ho')
    exact hR

/-- A node is made where it is not too high. -/
theorem node {e : Expr} {height : Nat} {R : List Operand → Operand → Prop} (hheight : height = e.height)
    (hR : R (⟨e, height⟩ :: made) ⟨e, height⟩) :
    Mirrors depth made (Parser.node e height) (Parser.node e height) R := by
  refine .ite (fun _ => .lift_bind fun l => .failAt_bind) fun hlow => ?_
  exact .make ⟨hheight, Nat.not_lt.1 hlow⟩ hR

end Mirrors

/-- What is read one level deeper mirrors a reader that is there only where a level is left. -/
inductive MirrorsDeeper (depth : Nat) (P : List Operand → α → Prop) :
    Option (Descent α) → Option (Parser α) → Prop where
  | refused {x? : Option (Descent α)} (hdepth : depth = maxNesting) : MirrorsDeeper depth P x? none
  | entered {x : Descent α} {p : Parser α} (hdepth : depth < maxNesting)
      (h : ∀ made, Mirrors (depth + 1) made x p P) : MirrorsDeeper depth P (some x) (some p)

/-- A call one level deeper leaves the counter as it was, whether it succeeds or fails. -/
theorem MirrorsDeeper.nested {depth : Nat} {made : List Operand} {x? : Option (Descent α)}
    {p? : Option (Parser α)} {P : List Operand → α → Prop} (h : MirrorsDeeper depth P x? p?) :
    Mirrors depth made (Nesting.nested x?) (Nesting.nested p?) P := by
  intro s g hg
  obtain ⟨rfl, hmade, hmeasured, hbounded, hunspent⟩ := hg
  cases h with
  | refused hdepth =>
    have hcall : (⟨g.depth, g.depth, g.depth⟩ : NestedCall).Bounded := ⟨Nat.le_of_eq hdepth, rfl⟩
    refine ⟨{ g with calls := ⟨g.depth, g.depth, g.depth⟩ :: g.calls }, made,
      if_pos (Nat.le_of_eq hdepth.symm), ?_, List.Subset.refl _, fun a s' ha => nomatch ha⟩
    exact ⟨rfl, hmade, hmeasured, List.forall_mem_cons.2 ⟨hcall, hbounded⟩, hunspent⟩
  | @entered x p hdepth hx =>
    obtain ⟨left, made', hxs, hleft, hsub, hP⟩ :=
      hx made s { g with depth := g.depth + 1 } ⟨rfl, hmade, hmeasured, hbounded, hunspent⟩
    have hback : left.depth - 1 = g.depth := by
      rw [hleft.depth_eq]
      rfl
    have hcall : (⟨g.depth, g.depth + 1, left.depth - 1⟩ : NestedCall).Bounded := ⟨hdepth, hback⟩
    refine ⟨{ left with
      depth := left.depth - 1
      calls := ⟨g.depth, g.depth + 1, left.depth - 1⟩ :: left.calls }, made', ?_, ?_, hsub, hP⟩
    · refine (if_neg (Nat.not_le.2 hdepth)).trans ?_
      dsimp only
      rw [hxs]
      rfl
    · exact ⟨hback, hleft.made_eq, hleft.measured, List.forall_mem_cons.2 ⟨hcall, hleft.bounded⟩,
        hleft.unspent⟩

end Descent

end Stampline
