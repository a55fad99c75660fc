import Stampline.Proofs.Stamp.Compiled
import Stampline.Proofs.Syntax.Counted

/-!
# How high and how deep programs are

The limit that the descent keeps bounds the programs that it reads. No expression of them is higher
than the limit, and no node stands deeper, counted in the blocks around its statement and in the signs
and calls that it is an operand or an argument of. Both bounds outlive stamping and locating, which
change neither the heights nor the nesting of a program.
-/

namespace Stampline

open Stampline.Parser (Operand)

/-! ## Heights -/

/-- No expression among some nodes is higher than `height`. -/
def Low (height : Nat) (nodes : List Node) : Prop := ∀ e, .expr e ∈ nodes → e.height ≤ height

section Low

variable {height height' : Nat} {nodes more : List Node}

theorem Low.nil : Low height [] := nofun

theorem Low.mono (h : Low height nodes) (hle : height ≤ height') : Low height' nodes :=
  fun e he => Nat.le_trans (h e he) hle

theorem Low.append (h : Low height nodes) (h' : Low height more) : Low height (nodes ++ more) :=
  fun e he => (List.mem_append.1 he).elim (h e) (h' e)

theorem Low.cons {n : Node} (hn : ∀ e, n = .expr e → e.height ≤ height) (h : Low height nodes) :
    Low height (n :: nodes) := fun e he => (List.mem_cons.1 he).elim (fun heq => hn e heq.symm) (h e)

end Low

mutual

/-- No expression below another one is higher. -/
theorem Expr.low : ∀ e : Expr, Low e.height e.nodes
  | .number .. | .text .. | .name .. => .cons (fun _ h => Node.expr.inj h ▸ Nat.le_refl _) .nil
  | .member _ receiver _ => .cons (fun _ h => Node.expr.inj h ▸ Nat.le_refl _)
    (receiver.low.mono (Nat.le_succ _))
  | .call _ callee args keywords => .cons (fun _ h => Node.expr.inj h ▸ Nat.le_refl _) <| by
    simp only [Expr.height]
    exact (callee.low.mono (by omega)).append
      (((low_nodesOf args).mono (by omega)).append ((low_nodesBy keywords).mono (by omega)))
  | .binary _ _ left right | .compare _ _ left right =>
    .cons (fun _ h => Node.expr.inj h ▸ Nat.le_refl _) <| by
    simp only [Expr.height]
    exact (left.low.mono (by omega)).append (right.low.mono (by omega))
  | .negate _ operand => .cons (fun _ h => Node.expr.inj h ▸ Nat.le_refl _)
    (operand.low.mono (Nat.le_succ _))

theorem low_nodesOf : ∀ es : List Expr, Low (heightOf es) (nodesOf es)
  | [] => .nil
  | e :: es => by
    rw [nodesOf, heightOf]
    exact (e.low.mono (Nat.le_max_left _ _)).append ((low_nodesOf es).mono (Nat.le_max_right _ _))

theorem low_nodesBy : ∀ ks : List Keyword, Low (heightBy ks) (nodesBy ks)
  | [] => .nil
  | .mk _ _ value :: ks => by
    rw [nodesBy, heightBy]
    exact .cons nofun ((value.low.mono (Nat.le_max_left _ _)).append
      ((low_nodesBy ks).mono (Nat.le_max_right _ _)))

end

theorem low_params (height : Nat) (params : List Param) : Low height (params.map .param) := by
  intro e he
  obtain ⟨p, -, hp⟩ := List.mem_map.1 he
  cases hp

mutual

theorem Stmt.low : ∀ s : Stmt, Low s.height s.nodes
  | .define _ _ params body => .cons nofun ((low_params _ params).append (low_nodesIn body))
  | .give _ none | .pass _ => .cons nofun .nil
  | .give _ (some value) | .assign _ _ value | .eval _ value => .cons nofun value.low
  | .branch _ test body orelse => .cons nofun <| by
    simp only [Stmt.height]
    exact (test.low.mono (by omega)).append
      (((low_nodesIn body).mono (by omega)).append ((low_nodesIn orelse).mono (by omega)))
  | .loop _ test body => .cons nofun <| by
    simp only [Stmt.height]
    exact (test.low.mono (by omega)).append ((low_nodesIn body).mono (by omega))

/-- No expression of a block is higher than the block. -/
theorem low_nodesIn : ∀ block : List Stmt, Low (heightIn block) (nodesIn block)
  | [] => .nil
  | s :: ss => by
    rw [nodesIn, heightIn]
    exact (s.low.mono (Nat.le_max_left _ _)).append ((low_nodesIn ss).mono (Nat.le_max_right _ _))

end

/-! ## Levels -/

/-- A node and the level that it stands at. -/
structure Level where
  /-- The node. -/
  node : Node
  /-- How many blocks its statement is in, and how many signs and calls it is an operand or an argument
  of within that statement. -/
  depth : Nat

mutual

/-- The levels of an expression and of the nodes below it. Operands of a sign and arguments of a call
stand one level deeper; all other nodes stand where the node above them stands. -/
def Expr.levels (depth : Nat) : Expr → List Level
  | .number span value => [⟨.expr (.number span value), depth⟩]
  | .text span value => [⟨.expr (.text span value), depth⟩]
  | .name span id => [⟨.expr (.name span id), depth⟩]
  | .member span receiver id =>
    ⟨.expr (.member span receiver id), depth⟩ :: receiver.levels depth
  | .call span callee args keywords =>
    ⟨.expr (.call span callee args keywords), depth⟩ ::
      (callee.levels depth ++ (levelsOf (depth + 1) args ++ levelsBy (depth + 1) keywords))
  | .binary span op left right =>
    ⟨.expr (.binary span op left right), depth⟩ :: (left.levels depth ++ right.levels depth)
  | .negate span operand => ⟨.expr (.negate span operand), depth⟩ :: operand.levels (depth + 1)
  | .compare span op left right =>
    ⟨.expr (.compare span op left right), depth⟩ :: (left.levels depth ++ right.levels depth)

/-- The levels of expressions. -/
def levelsOf (depth : Nat) : List Expr → List Level
  | [] => []
  | e :: es => e.levels depth ++ levelsOf depth es

/-- The levels of keyword arguments. -/
def levelsBy (depth : Nat) : List Keyword → List Level
  | [] => []
  | .mk span name value :: ks =>
    ⟨.keyword (.mk span name value), depth⟩ :: (value.levels depth ++ levelsBy depth ks)

end

mutual

/-- The levels of a statement and of the nodes below it. The statements of a block stand one level
deeper than the statement that the block belongs to, and so does what is written as `elif`. -/
def Stmt.levels (depth : Nat) : Stmt → List Level
  | .define span name params body =>
    ⟨.stmt (.define span name params body), depth⟩ ::
      (params.map (⟨.param ·, depth⟩) ++ levelsIn (depth + 1) body)
  | .give span none => [⟨.stmt (.give span none), depth⟩]
  | .give span (some value) => ⟨.stmt (.give span (some value)), depth⟩ :: value.levels depth
  | .assign span target value => ⟨.stmt (.assign span target value), depth⟩ :: value.levels depth
  | .eval span value => ⟨.stmt (.eval span value), depth⟩ :: value.levels depth
  | .branch span test body orelse =>
    ⟨.stmt (.branch span test body orelse), depth⟩ ::
      (test.levels depth ++ (levelsIn (depth + 1) body ++ levelsIn (depth + 1) orelse))
  | .loop span test body =>
    ⟨.stmt (.loop span test body), depth⟩ :: (test.levels depth ++ levelsIn (depth + 1) body)
  | .pass span => [⟨.stmt (.pass span), depth⟩]

/-- The levels of a block. -/
def levelsIn (depth : Nat) : List Stmt → List Level
  | [] => []
  | s :: ss => s.levels depth ++ levelsIn depth ss

end

/-- The levels of a program, whose statements are in no block. -/
def Program.levels (p : Program) : List Level := levelsIn 0 p

/-! ### Every node has its level -/

mutual

theorem Expr.map_node_levels : ∀ (e : Expr) (depth : Nat), (e.levels depth).map Level.node = e.nodes
  | .number .., _ | .text .., _ | .name .., _ => rfl
  | .member _ e _, depth => by simp [Expr.levels, Expr.nodes, e.map_node_levels]
  | .negate _ e, depth => by simp [Expr.levels, Expr.nodes, e.map_node_levels]
  | .call _ callee args keywords, depth => by
    simp [Expr.levels, Expr.nodes, callee.map_node_levels, map_node_levelsOf, map_node_levelsBy]
  | .binary _ _ left right, depth => by
    simp [Expr.levels, Expr.nodes, left.map_node_levels, right.map_node_levels]
  | .compare _ _ left right, depth => by
    simp [Expr.levels, Expr.nodes, left.map_node_levels, right.map_node_levels]

theorem map_node_levelsOf : ∀ (es : List Expr) (depth : Nat),
    (levelsOf depth es).map Level.node = nodesOf es
  | [], _ => rfl
  | e :: es, depth => by simp [levelsOf, nodesOf, e.map_node_levels, map_node_levelsOf es]

theorem map_node_levelsBy : ∀ (ks : List Keyword) (depth : Nat),
    (levelsBy depth ks).map Level.node = nodesBy ks
  | [], _ => rfl
  | .mk _ _ value :: ks, depth => by
    simp [levelsBy, nodesBy, value.map_node_levels, map_node_levelsBy ks]

end

mutual

theorem Stmt.map_node_levels : ∀ (s : Stmt) (depth : Nat), (s.levels depth).map Level.node = s.nodes
  | .give _ none, _ | .pass _, _ => rfl
  | .give _ (some value), depth | .assign _ _ value, depth | .eval _ value, depth => by
    simp [Stmt.levels, Stmt.nodes, value.map_node_levels]
  | .define _ _ params body, depth => by simp [Stmt.levels, Stmt.nodes, map_node_levelsIn body]
  | .branch _ test body orelse, depth => by
    simp [Stmt.levels, Stmt.nodes, test.map_node_levels, map_node_levelsIn body,
      map_node_levelsIn orelse]
  | .loop _ test body, depth => by
    simp [Stmt.levels, Stmt.nodes, test.map_node_levels, map_node_levelsIn body]

theorem map_node_levelsIn : ∀ (block : List Stmt) (depth : Nat),
    (levelsIn depth block).map Level.node = nodesIn block
  | [], _ => rfl
  | s :: ss, depth => by simp [levelsIn, nodesIn, s.map_node_levels, map_node_levelsIn ss]

end

/-! ### Nesting bounds levels -/

/-- No level is deeper than `depth`. -/
def Shallow (depth : Nat) (levels : List Level) : Prop := ∀ l ∈ levels, l.depth ≤ depth

section Shallow

variable {depth depth' : Nat} {levels more : List Level}

theorem Shallow.nil : Shallow depth [] := nofun

theorem Shallow.mono (h : Shallow depth levels) (hle : depth ≤ depth') : Shallow depth' levels :=
  fun l hl => Nat.le_trans (h l hl) hle

theorem Shallow.append (h : Shallow depth levels) (h' : Shallow depth more) :
    Shallow depth (levels ++ more) := List.forall_mem_append.2 ⟨h, h'⟩

theorem Shallow.cons {n : Node} {here : Nat} (hhere : here ≤ depth) (h : Shallow depth levels) :
    Shallow depth (⟨n, here⟩ :: levels) := List.forall_mem_cons.2 ⟨hhere, h⟩

end Shallow

mutual

/-- Nothing in an expression stands deeper than its written form nests. -/
theorem Expr.shallow : ∀ (e : Expr) (depth : Nat), Shallow (depth + e.nesting) (e.levels depth)
  | .number .., _ | .text .., _ | .name .., _ => .cons (Nat.le_add_right _ _) .nil
  | .member _ receiver _, depth => .cons (Nat.le_add_right _ _) <| by
    simp only [Expr.nesting]
    exact (receiver.shallow depth).mono (by omega)
  | .call _ callee args keywords, depth => .cons (Nat.le_add_right _ _) <| by
    simp only [Expr.nesting]
    exact ((callee.shallow depth).mono (by omega)).append
      (((shallow_levelsOf args _).mono (by omega)).append
        ((shallow_levelsBy keywords _).mono (by omega)))
  | .binary _ _ left right, depth | .compare _ _ left right, depth =>
    .cons (Nat.le_add_right _ _) <| by
    simp only [Expr.nesting]
    exact ((left.shallow depth).mono (by omega)).append ((right.shallow depth).mono (by omega))
  | .negate _ operand, depth => .cons (Nat.le_add_right _ _) <| by
    simp only [Expr.nesting]
    exact (operand.shallow (depth + 1)).mono (by omega)

theorem shallow_levelsOf : ∀ (es : List Expr) (depth : Nat),
    Shallow (depth + nestingOf es) (levelsOf depth es)
  | [], _ => .nil
  | e :: es, depth => by
    rw [nestingOf, levelsOf]
    exact ((e.shallow depth).mono (by omega)).append ((shallow_levelsOf es depth).mono (by omega))

theorem shallow_levelsBy : ∀ (ks : List Keyword) (depth : Nat),
    Shallow (depth + nestingBy ks) (levelsBy depth ks)
  | [], _ => .nil
  | .mk _ _ value :: ks, depth => by
    rw [nestingBy, levelsBy]
    exact .cons (Nat.le_add_right _ _) (((value.shallow depth).mono (by omega)).append
      ((shallow_levelsBy ks depth).mono (by omega)))

end

theorem shallow_params (depth extra : Nat) (params : List Param) :
    Shallow (depth + extra) (params.map (⟨.param ·, depth⟩)) := by
  intro l hl
  obtain ⟨p, -, rfl⟩ := List.mem_map.1 hl
  exact Nat.le_add_right depth extra

mutual

theorem Stmt.shallow : ∀ (s : Stmt) (depth : Nat), Shallow (depth + s.nesting) (s.levels depth)
  | .define _ _ params body, depth => .cons (Nat.le_add_right _ _) <|
    (shallow_params depth _ params).append <| by
    simp only [Stmt.nesting]
    exact (shallow_levelsIn body (depth + 1)).mono (by omega)
  | .give _ none, _ | .pass _, _ => .cons (Nat.le_add_right _ _) .nil
  | .give _ (some value), depth | .assign _ _ value, depth | .eval _ value, depth =>
    .cons (Nat.le_add_right _ _) (value.shallow depth)
  | .branch _ test body orelse, depth => .cons (Nat.le_add_right _ _) <| by
    simp only [Stmt.nesting]
    refine ((test.shallow depth).mono (by omega)).append
      (((shallow_levelsIn body (depth + 1)).mono (by omega)).append ?_)
    cases orelse with
    | nil => exact .nil
    | cons s ss =>
      refine (shallow_levelsIn (s :: ss) (depth + 1)).mono ?_
      simp only [List.isEmpty_cons, Bool.false_eq_true, if_false]
      omega
  | .loop _ test body, depth => .cons (Nat.le_add_right _ _) <| by
    simp only [Stmt.nesting]
    exact ((test.shallow depth).mono (by omega)).append
      ((shallow_levelsIn body (depth + 1)).mono (by omega))

/-- Nothing in a block stands deeper than its written form nests. -/
theorem shallow_levelsIn : ∀ (block : List Stmt) (depth : Nat),
    Shallow (depth + nestingIn block) (levelsIn depth block)
  | [], _ => .nil
  | s :: ss, depth => by
    rw [nestingIn, levelsIn]
    exact ((s.shallow depth).mono (by omega)).append ((shallow_levelsIn ss depth).mono (by omega))

end

/-! ## The limit -/

/-- No expression of a program is higher than the limit, and no node stands deeper. -/
structure Program.Bounded (p : Program) : Prop where
  low : Low maxNesting p.nodes
  shallow : Shallow maxNesting p.levels

/-- What can be written within the limit is bounded by it. -/
theorem Program.Bounded.of_height_of_nesting {p : Program} (hheight : heightIn p ≤ maxNesting)
    (hnesting : nestingIn p ≤ maxNesting) : p.Bounded :=
  ⟨(low_nodesIn p).mono hheight, (shallow_levelsIn p 0).mono (by omega)⟩

/-- What is read was scanned before. -/
theorem Program.lexemes_of_parse {source : String} {p : Program} (h : Program.parse source = .ok p) :
    ∃ lexemes, scan source = .ok lexemes ∧ parseLexemes lexemes = .ok p := by
  unfold Program.parse at h
  split at h
  · cases h
  · rename_i lexemes hscan
    split at h
    · cases h
    · rename_i p' hparse
      obtain rfl := Except.ok.inj h
      exact ⟨lexemes, hscan, hparse⟩

/-- The limit on nesting bounds the programs that are read, and what comes of them. The descent with a
counter reads what the descent without one reads, and whether it succeeds or fails, the counter stayed
within the limit, every call deeper left it as it was, and every operand that was made came with the
height of its tree. In a program that is read every expression was made as an operand; no expression is
higher than the limit and no node is deeper. So it is after stamping and after locating. -/
theorem Program.bounded_descent {fuel : Nat} (hfuel : maxNesting < fuel) :
    (∀ lexemes : List Lexeme, (descend fuel lexemes).1 = parseLexemes lexemes ∧
      (descend fuel lexemes).2.InOrder 0 (descend fuel lexemes).2.made) ∧
    ∀ (source : String) (p : Program), Program.parse source = .ok p →
      (∃ lexemes, scan source = .ok lexemes ∧ (descend fuel lexemes).1 = .ok p ∧
        ∀ e, .expr e ∈ p.nodes → ⟨e, e.height⟩ ∈ (descend fuel lexemes).2.made) ∧
      p.levels.map Level.node = p.nodes ∧ p.Bounded ∧
      ∀ (target : String) (stamper : Stamper) (new : Program) (progress : Progress Stamper),
        p.rewrite (stampRules target) stamper = (.ok new, progress) →
          new.Bounded ∧ new.locate.1.Bounded := by
  refine ⟨fun lexemes => ?_, fun source p hp => ⟨?_, map_node_levelsIn p 0, ?_, ?_⟩⟩
  · obtain ⟨hread, horder, -⟩ := descend_eq hfuel lexemes
    exact ⟨hread, horder⟩
  · obtain ⟨lexemes, hscan, hparse⟩ := Program.lexemes_of_parse hp
    obtain ⟨hread, -, htracked⟩ := descend_eq hfuel lexemes
    exact ⟨lexemes, hscan, hread.trans hparse, htracked p hparse⟩
  · have hfits := Program.fits_of_parse hp
    exact .of_height_of_nesting hfits.low hfits.nesting
  · intro target stamper new progress hrewrite
    have hfits := Program.fits_of_parse hp
    have hkeeps := keeps_rewrite hrewrite
    have hlocated := blockFits_locate hfits hrewrite
    exact ⟨.of_height_of_nesting (hkeeps.height ▸ hfits.low) (hkeeps.nesting ▸ hfits.nesting),
      .of_height_of_nesting hlocated.low hlocated.nesting⟩

theorem Program.bounded_descent_signedSource : maxNesting < 201 ∧ ∃ p new progress lexemes,
    Program.parse signedSource = .ok p ∧
    p.rewrite (stampRules "print") quotingPipeline.stamper = (.ok new, progress) ∧
    scan signedSource = .ok lexemes ∧ (descend 201 lexemes).1 = .ok p ∧
    (descend 201 lexemes).2.InOrder 0 (descend 201 lexemes).2.made ∧
    (∀ e, .expr e ∈ p.nodes → ⟨e, e.height⟩ ∈ (descend 201 lexemes).2.made) ∧
    p.Bounded ∧ new.Bounded ∧ new.locate.1.Bounded := by
  have hfuel : maxNesting < 201 := by decide
  have hstamped : ((Program.parse signedSource).toOption.any fun p =>
      (p.rewrite (stampRules "print") quotingPipeline.stamper).1.toOption.isSome) = true := by
    decide +kernel
  cases hparse : Program.parse signedSource with
  | error e =>
    rw [hparse] at hstamped
    cases hstamped
  | ok p =>
    rw [hparse] at hstamped
    replace hstamped :
        (p.rewrite (stampRules "print") quotingPipeline.stamper).1.toOption.isSome = true := hstamped
    cases hrewrite : p.rewrite (stampRules "print") quotingPipeline.stamper with
    | mk result progress =>
      rw [hrewrite] at hstamped
      cases result with
      | error e => cases hstamped
      | ok new =>
        obtain ⟨hread, hprograms⟩ := Program.bounded_descent hfuel
        obtain ⟨⟨lexemes, hscan, hdescend, htracked⟩, -, hbounded, hkept⟩ :=
          hprograms signedSource p hparse
        obtain ⟨hnew, hlocated⟩ := hkept "print" quotingPipeline.stamper new progress hrewrite
        exact ⟨hfuel, p, new, progress, lexemes, rfl, hrewrite, hscan, hdescend, (hread lexemes).2,
          htracked, hbounded, hnew, hlocated⟩

end Stampline
