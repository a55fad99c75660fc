import Stampline.Syntax.Walk
import Stampline.Proofs.Syntax.Recorded

/-!
# The sights of a walk

A walk shows the sights of a program in pre-order, and an observer that stops at some of them misses
what lies below these and nothing else. The statements, expressions and keyword arguments among the
sights are the nodes that a rewriter hands to its hooks, in another order.
-/

namespace Stampline

/-! ## Pre-order -/

/-- The sights directly below a sight. What a statement or an expression is in particular lies below
it, and the nodes below it lie below that. -/
def Sight.below : Sight → List Sight
  | program p => p.map stmt
  | stmt (.define span id params body) => [define span id params body]
  | stmt (.give _ none) | stmt (.pass _) => []
  | stmt (.give _ (some e)) | stmt (.assign _ _ e) | stmt (.eval _ e) => [expr e]
  | stmt (.branch _ test body orelse) => expr test :: (body.map stmt ++ orelse.map stmt)
  | stmt (.loop _ test body) => expr test :: body.map stmt
  | define _ _ _ body => body.map stmt
  | expr (.number span value) => [number span value]
  | expr (.text span value) => [text span value]
  | expr (.name span id) => [name span id]
  | expr (.member _ receiver _) => [expr receiver]
  | expr (.call span callee args keywords) => [call span callee args keywords]
  | expr (.binary _ _ left right) | expr (.compare _ _ left right) => [expr left, expr right]
  | expr (.negate _ operand) => [expr operand]
  | number .. | text .. | name .. => []
  | call _ callee args keywords => expr callee :: (args.map expr ++ keywords.map keyword)
  | keyword (.mk _ _ value) => [expr value]

theorem Sight.sizeOf_lt (s : Sight) : ∀ t ∈ s.below, sizeOf t < sizeOf s := by
  have hmap {α : Type} [SizeOf α] {make : α → Sight} {as : List α} {n : Nat}
      (hmake : ∀ a, sizeOf (make a) = 1 + sizeOf a) (hn : sizeOf as < n) :
      ∀ t ∈ as.map make, sizeOf t < n := by
    intro t ht
    obtain ⟨a, ha, rfl⟩ := List.mem_map.1 ht
    have hlt := List.sizeOf_lt_of_mem ha
    rw [hmake]
    omega
  cases s with
  | program p =>
    refine hmap (fun _ => rfl) ?_
    rw [program.sizeOf_spec]
    omega
  | stmt s =>
    cases s with
    | define | pass => simp [below]
    | assign | eval =>
      simp only [below, List.forall_mem_singleton, expr.sizeOf_spec, stmt.sizeOf_spec,
        Stmt.assign.sizeOf_spec, Stmt.eval.sizeOf_spec]
      omega
    | give _ value =>
      cases value with
      | none => exact List.forall_mem_nil _
      | some e =>
        simp only [below, List.forall_mem_singleton, expr.sizeOf_spec, stmt.sizeOf_spec,
          Stmt.give.sizeOf_spec, Option.some.sizeOf_spec]
        omega
    | branch span test body orelse =>
      have hsize := Stmt.branch.sizeOf_spec span test body orelse
      simp only [below, List.forall_mem_cons, List.forall_mem_append, expr.sizeOf_spec,
        stmt.sizeOf_spec]
      exact ⟨by omega, hmap (fun _ => rfl) (by omega), hmap (fun _ => rfl) (by omega)⟩
    | loop span test body =>
      have hsize := Stmt.loop.sizeOf_spec span test body
      simp only [below, List.forall_mem_cons, expr.sizeOf_spec, stmt.sizeOf_spec]
      exact ⟨by omega, hmap (fun _ => rfl) (by omega)⟩
  | define span id params body =>
    refine hmap (fun _ => rfl) ?_
    rw [define.sizeOf_spec]
    omega
  | expr e =>
    cases e <;> simp only [below, List.forall_mem_cons, List.not_mem_nil, false_imp_iff, implies_true,
      and_true, expr.sizeOf_spec, number.sizeOf_spec, text.sizeOf_spec, name.sizeOf_spec,
      call.sizeOf_spec, Expr.number.sizeOf_spec, Expr.text.sizeOf_spec, Expr.name.sizeOf_spec,
      Expr.member.sizeOf_spec, Expr.call.sizeOf_spec, Expr.binary.sizeOf_spec,
      Expr.negate.sizeOf_spec, Expr.compare.sizeOf_spec] <;> omega
  | number | text | name => exact List.forall_mem_nil _
  | call span callee args keywords =>
    have hspan : 0 < sizeOf span := by
      cases span with
      | none => decide
      | some s =>
        rw [Option.some.sizeOf_spec]
        omega
    have hsize := call.sizeOf_spec span callee args keywords
    simp only [below, List.forall_mem_cons, List.forall_mem_append, expr.sizeOf_spec]
    exact ⟨by omega, hmap (fun _ => rfl) (by omega), hmap (fun _ => rfl) (by omega)⟩
  | keyword k =>
    cases k
    simp only [below, List.forall_mem_singleton, expr.sizeOf_spec, keyword.sizeOf_spec,
      Keyword.mk.sizeOf_spec]
    omega

/-- A sight and the sights above it, the nearest first. -/
structure Sighting where
  /-- The sight. -/
  sight : Sight
  /-- The sights above it, the nearest first. -/
  above : List Sight

/-- A sight and what lies below it, in pre-order. The sights above it are `above`. -/
def Sight.listing (above : List Sight) (s : Sight) : List Sighting :=
  ⟨s, above⟩ :: s.below.attach.flatMap fun t => t.1.listing (s :: above)
termination_by sizeOf s
decreasing_by exact s.sizeOf_lt t.1 t.2

theorem Sight.listing_eq (above : List Sight) (s : Sight) :
    s.listing above = ⟨s, above⟩ :: s.below.flatMap (listing (s :: above)) := by
  rw [listing]
  simp

/-- The sights of a program, in pre-order. -/
def Program.sightings (p : Program) : List Sighting := (Sight.program p).listing []

/-! ## Walks -/

section Walks

variable {stop : Sight → Bool} {above : List Sight}

/-- The sights of a listing that do not lie below one that `stop` holds of. -/
def unstopped (stop : Sight → Bool) (sightings : List Sighting) : List Sight :=
  (sightings.filter fun t => !t.above.any stop).map Sighting.sight

theorem unstopped_append (ts ts' : List Sighting) :
    unstopped stop (ts ++ ts') = unstopped stop ts ++ unstopped stop ts' := by
  simp [unstopped]

theorem unstopped_flatMap {ss : List Sight} {f : Sight → List Sighting}
    (h : ∀ s ∈ ss, unstopped stop (f s) = []) : unstopped stop (ss.flatMap f) = [] := by
  induction ss with
  | nil => rfl
  | cons s ss ih =>
    have hs := h s (.head _)
    have hss := ih fun t ht => h t (.tail _ ht)
    rw [List.flatMap_cons, unstopped_append, hs, hss, List.append_nil]

/-- Nothing is seen below a sight that `stop` holds of. -/
theorem Sight.unstopped_listing_of_any (s : Sight) (above : List Sight)
    (h : above.any stop = true) : unstopped stop (s.listing above) = [] := by
  have hbelow : unstopped stop (s.below.flatMap (listing (s :: above))) = [] := by
    refine unstopped_flatMap fun t ht => t.unstopped_listing_of_any (s :: above) ?_
    rw [List.any_cons, h, Bool.or_true]
  have hself : unstopped stop [⟨s, above⟩] = [] := by simp [unstopped, h]
  rw [s.listing_eq, ← List.singleton_append, unstopped_append, hself, hbelow, List.append_nil]
termination_by sizeOf s
decreasing_by exact s.sizeOf_lt t ht

/-- The observer that notes what it is shown, the latest first, and stops at what `stop` holds of. -/
abbrev noteSights (stop : Sight → Bool) : Observer (List Sight) :=
  fun sight seen => (sight :: seen, !stop sight)

/-- A part of a walk notes sights that lie below `above` and what lies below them, in pre-order and up
to where it stops. -/
def Shows (stop : Sight → Bool) (above sights : List Sight) (walk : List Sight → List Sight) : Prop :=
  above.any stop = false → ∀ seen,
    walk seen = (unstopped stop (sights.flatMap (Sight.listing above))).reverse ++ seen

namespace Shows

theorem nil : Shows stop above [] id := fun _ _ => rfl

theorem append {sights sights' : List Sight} {walk walk' : List Sight → List Sight}
    (h : Shows stop above sights walk) (h' : Shows stop above sights' walk') :
    Shows stop above (sights ++ sights') fun seen => walk' (walk seen) := by
  intro habove seen
  have hfirst := h habove seen
  have hsecond := h' habove (walk seen)
  show walk' (walk seen) = _
  rw [hsecond, hfirst, List.flatMap_append, unstopped_append, List.reverse_append,
    List.append_assoc]

theorem cons {sight : Sight} {sights : List Sight} {walk walk' : List Sight → List Sight}
    (h : Shows stop above [sight] walk) (h' : Shows stop above sights walk') :
    Shows stop above (sight :: sights) fun seen => walk' (walk seen) := h.append h'

/-- A sight is noted before what lies below it, and in its place if the walk stops there. -/
theorem meet {sight : Sight} {walk : List Sight → List Sight}
    (h : Shows stop (sight :: above) sight.below walk) :
    Shows stop above [sight] ((noteSights stop).meet sight walk) := by
  intro habove seen
  have hself : unstopped stop [⟨sight, above⟩] = [sight] := by simp [unstopped, habove]
  have hlisting : unstopped stop ([sight].flatMap (Sight.listing above)) =
      sight :: unstopped stop (sight.below.flatMap (Sight.listing (sight :: above))) := by
    rw [List.flatMap_singleton, sight.listing_eq, ← List.singleton_append, unstopped_append, hself]
    rfl
  rw [hlisting, Observer.meet]
  by_cases hstop : stop sight = true
  · have hbelow : unstopped stop (sight.below.flatMap (Sight.listing (sight :: above))) = [] :=
      unstopped_flatMap fun t _ => t.unstopped_listing_of_any _ (by simp [hstop])
    simp [hstop, hbelow]
  · have hgoes : (sight :: above).any stop = false := by simpa [hstop] using habove
    have hbelow := h hgoes (sight :: seen)
    simp [hstop, hbelow]

end Shows

mutual

/-- A walk over an expression shows the expression and what lies below it. -/
theorem Expr.shows : ∀ (e : Expr) (above : List Sight),
    Shows stop above [.expr e] (e.walk (noteSights stop))
  | .number .., _ | .text .., _ | .name .., _ => .meet (.meet .nil)
  | .member _ receiver _, _ => .meet (receiver.shows _)
  | .call _ callee args keywords, _ =>
    .meet (.meet ((callee.shows _).cons ((shows_exprs args _).append (shows_keywords keywords _))))
  | .binary _ _ left right, _ | .compare _ _ left right, _ =>
    .meet ((left.shows _).cons (right.shows _))
  | .negate _ operand, _ => .meet (operand.shows _)

theorem shows_exprs : ∀ (es : List Expr) (above : List Sight),
    Shows stop above (es.map .expr) (walkExprs (noteSights stop) es)
  | [], _ => .nil
  | e :: es, _ => (e.shows _).cons (shows_exprs es _)

theorem shows_keywords : ∀ (ks : List Keyword) (above : List Sight),
    Shows stop above (ks.map .keyword) (walkKeywords (noteSights stop) ks)
  | [], _ => .nil
  | .mk span name value :: ks, above => by
    have hkeyword : Shows stop above [.keyword (.mk span name value)]
        ((Keyword.mk span name value).walk (noteSights stop)) := .meet (value.shows _)
    exact hkeyword.cons (shows_keywords ks above)

end

mutual

/-- A walk over a statement shows the statement and what lies below it. -/
theorem Stmt.shows : ∀ (s : Stmt) (above : List Sight),
    Shows stop above [.stmt s] (s.walk (noteSights stop))
  | .define _ _ _ body, _ => .meet (.meet (shows_block body _))
  | .give _ none, _ | .pass _, _ => .meet .nil
  | .give _ (some value), _ | .assign _ _ value, _ | .eval _ value, _ => .meet (value.shows _)
  | .branch _ test body orelse, _ => by
    rw [Stmt.walk]
    exact .meet ((test.shows _).cons ((shows_block body _).append (shows_block orelse _)))
  | .loop _ test body, _ => by
    rw [Stmt.walk]
    exact .meet ((test.shows _).cons (shows_block body _))

theorem shows_block : ∀ (block : List Stmt) (above : List Sight),
    Shows stop above (block.map .stmt) (walkBlock (noteSights stop) block)
  | [], _ => .nil
  | s :: ss, _ => (s.shows _).cons (shows_block ss _)

end

/-- A walk shows the sights of a program in pre-order, and only those that lie below a sight at which it
stops are left out. -/
theorem Program.sights_eq (p : Program) (stop : Sight → Bool) :
    p.sights stop = unstopped stop p.sightings := by
  have hwalk : Shows stop [] [.program p] (p.walk (noteSights stop)) := .meet (shows_block p _)
  rw [sights, hwalk rfl [], List.append_nil, List.reverse_reverse, List.flatMap_singleton]
  rfl

end Walks

/-! ## Nodes -/

/-- The node that a sight shows. What a node is in particular is no node of its own. -/
def Sight.node? : Sight → Option Node
  | stmt s => some (.stmt s)
  | expr e => some (.expr e)
  | keyword k => some (.keyword k)
  | program _ | define .. | number .. | text .. | name .. | call .. => none

/-- The node that is shown there. -/
def Sighting.node? (t : Sighting) : Option Node := t.sight.node?

/-- The sights, with those below them, show the nodes, parameters aside. -/
def ShowsNodes (above sights : List Sight) (nodes : List Node) : Prop :=
  (sights.flatMap (Sight.listing above)).filterMap Sighting.node? = nodes.filter Node.isVisited

namespace ShowsNodes

variable {above sights sights' : List Sight} {nodes nodes' : List Node} {sight : Sight}

theorem nil : ShowsNodes above [] [] := rfl

theorem append (h : ShowsNodes above sights nodes) (h' : ShowsNodes above sights' nodes') :
    ShowsNodes above (sights ++ sights') (nodes ++ nodes') := by
  unfold ShowsNodes at *
  rw [List.flatMap_append, List.filterMap_append, List.filter_append, h, h']

theorem cons (h : ShowsNodes above [sight] nodes) (h' : ShowsNodes above sights nodes') :
    ShowsNodes above (sight :: sights) (nodes ++ nodes') := h.append h'

/-- A node is shown before those below it. -/
theorem node {n : Node} (hnode : sight.node? = some n) (hvisited : n.isVisited = true)
    (hbelow : ShowsNodes (sight :: above) sight.below nodes) :
    ShowsNodes above [sight] (n :: nodes) := by
  unfold ShowsNodes at *
  have hself : (Sighting.mk sight above).node? = some n := hnode
  rw [List.flatMap_singleton, sight.listing_eq, List.filterMap_cons_some hself, hbelow,
    List.filter_cons_of_pos hvisited]

/-- What a node is in particular is shown between the node and those below it. -/
theorem particular (hnode : sight.node? = none)
    (hbelow : ShowsNodes (sight :: above) sight.below nodes) : ShowsNodes above [sight] nodes := by
  unfold ShowsNodes at *
  have hself : (Sighting.mk sight above).node? = none := hnode
  rw [List.flatMap_singleton, sight.listing_eq, List.filterMap_cons_none hself, hbelow]

theorem behindParams (params : List Param) (h : ShowsNodes above sights nodes) :
    ShowsNodes above sights (params.map .param ++ nodes) := by
  unfold ShowsNodes at *
  rw [List.filter_append, Node.filter_isVisited_params, h, List.nil_append]

end ShowsNodes

mutual

theorem Expr.showsNodes : ∀ (e : Expr) (above : List Sight), ShowsNodes above [.expr e] e.nodes
  | .number .., _ | .text .., _ | .name .., _ => .node rfl rfl (.particular rfl .nil)
  | .member _ receiver _, _ => .node rfl rfl (receiver.showsNodes _)
  | .call _ callee args keywords, _ => .node rfl rfl (.particular rfl
    ((callee.showsNodes _).cons ((showsNodes_exprs args _).append (showsNodes_keywords keywords _))))
  | .binary _ _ left right, _ | .compare _ _ left right, _ =>
    .node rfl rfl ((left.showsNodes _).cons (right.showsNodes _))
  | .negate _ operand, _ => .node rfl rfl (operand.showsNodes _)

theorem showsNodes_exprs : ∀ (es : List Expr) (above : List Sight),
    ShowsNodes above (es.map .expr) (nodesOf es)
  | [], _ => .nil
  | e :: es, _ => (e.showsNodes _).cons (showsNodes_exprs es _)

theorem showsNodes_keywords : ∀ (ks : List Keyword) (above : List Sight),
    ShowsNodes above (ks.map .keyword) (nodesBy ks)
  | [], _ => .nil
  | .mk span name value :: ks, above => by
    have hkeyword : ShowsNodes above [.keyword (.mk span name value)]
        (.keyword (.mk span name value) :: value.nodes) := .node rfl rfl (value.showsNodes _)
    exact hkeyword.cons (showsNodes_keywords ks above)

end

mutual

theorem Stmt.showsNodes : ∀ (s : Stmt) (above : List Sight), ShowsNodes above [.stmt s] s.nodes
  | .define _ _ params body, _ =>
    .node rfl rfl (.particular rfl ((showsNodes_block body _).behindParams params))
  | .give _ none, _ | .pass _, _ => .node rfl rfl .nil
  | .give _ (some value), _ | .assign _ _ value, _ | .eval _ value, _ =>
    .node rfl rfl (value.showsNodes _)
  | .branch _ test body orelse, _ => .node rfl rfl
    ((test.showsNodes _).cons ((showsNodes_block body _).append (showsNodes_block orelse _)))
  | .loop _ test body, _ => .node rfl rfl ((test.showsNodes _).cons (showsNodes_block body _))

theorem showsNodes_block : ∀ (block : List Stmt) (above : List Sight),
    ShowsNodes above (block.map .stmt) (nodesIn block)
  | [], _ => .nil
  | s :: ss, _ => (s.showsNodes _).cons (showsNodes_block ss _)

end

/-- The nodes of a program, parameters aside, are shown in the order in which they are listed. -/
theorem Program.nodes_sights (p : Program) :
    (p.sights fun _ => false).filterMap Sight.node? = p.nodes.filter Node.isVisited := by
  have hall : p.sights (fun _ => false) = p.sightings.map Sighting.sight := by
    rw [p.sights_eq, unstopped, List.filter_eq_self.2]
    intro t _
    rw [Bool.not_eq_true', List.any_eq_false]
    exact fun _ _ hfalse => Bool.noConfusion hfalse
  have hnodes : ShowsNodes [] [.program p] p.nodes := .particular rfl (showsNodes_block p _)
  rw [hall, List.filterMap_map, ← hnodes, List.flatMap_singleton]
  rfl

/-! ## Rewriters that keep everything -/

variable {σ ε : Type}

/-- The hooks of a rewriter keep every node. -/
structure Rewriter.KeepsAll (rw : Rewriter σ ε) : Prop where
  define : ∀ s state, (rw.define s state).result = .ok (.keep s)
  stmt : ∀ s state, (rw.stmt s state).result = .ok (.keep s)
  call : ∀ e state, (rw.call e state).result = .ok (.keep e)
  expr : ∀ e state, (rw.expr e state).result = .ok (.keep e)
  keyword : ∀ k state, (rw.keyword k state).result = .ok (.keep k)

/-- The nodes that were handed to hooks so far. -/
def Progress.handed (progress : Progress (σ × List (HookCall ε))) : List Node :=
  progress.state.2.map HookCall.handed

/-- Recorded rewriting succeeds with `a`, and the nodes are handed to hooks meanwhile. -/
def Rewriting.Hands {α : Type} (x : Rewriting (σ × List (HookCall ε)) ε α) (a : α)
    (nodes : List Node) : Prop :=
  ∀ before, ∃ after, x before = (.ok a, after) ∧ after.handed = before.handed ++ nodes

namespace Rewriting.Hands

variable {α β : Type} {x : Rewriting (σ × List (HookCall ε)) ε α}
  {f : α → Rewriting (σ × List (HookCall ε)) ε β} {a : α} {b : β} {nodes nodes' : List Node}

theorem pure (a : α) : Hands (Pure.pure a : Rewriting (σ × List (HookCall ε)) ε α) a [] :=
  fun before => ⟨before, rfl, (List.append_nil _).symm⟩

theorem bind (hx : Hands x a nodes) (hf : Hands (f a) b nodes') :
    Hands (x >>= f) b (nodes ++ nodes') := by
  intro before
  obtain ⟨middle, hmiddle, hhanded⟩ := hx before
  obtain ⟨after, hafter, hhanded'⟩ := hf middle
  refine ⟨after, ?_, ?_⟩
  · rw [bind_of_ok hmiddle, hafter]
  · rw [hhanded', hhanded, List.append_assoc]

theorem apply {rw : Rewriter σ ε} {hook : Hook σ ε α} {label : String} {name : HookName}
    {make : α → Node} (hkeeps : ∀ a state, (hook a state).result = .ok (.keep a)) (a : α) :
    Hands (rw.recording.apply (hook.recording name make) label a) (some a) [make a] := by
  intro before
  have hresult : (hook.recording name make a before.state).result = .ok (.keep a) :=
    hkeeps a before.state.1
  unfold Rewriter.apply
  dsimp only
  rw [hresult]
  exact ⟨_, rfl, by simp [Progress.handed, Hook.recording, Rewriter.carryOut]⟩

/-- What is left to do on a node hands out what is left of its children and then the node. -/
abbrev Rest (n : Node) (todo : List Child) (x : Rewriting (σ × List (HookCall ε)) ε α) (a : α) :
    Prop := Hands x a (todo.flatMap (·.node.visited) ++ [n])

theorem whole {n : Node} (h : Rest n n.visitedChildren x a) : Hands x a n.visited := by
  rw [n.visited_eq]
  exact h

/-- A child is kept, and fills its place. -/
theorem filled {n : Node} {todo : List Child} {place : Place} {e : Expr}
    {x : Rewriting (σ × List (HookCall ε)) ε (Option Expr)}
    {f : Expr → Rewriting (σ × List (HookCall ε)) ε β}
    (hx : Hands x (some e) (Node.expr e).visited) (hf : Rest n todo (f e) b) :
    Rest n (.filling place e :: todo) (x >>= fun out => Rewriter.fill place out >>= f) b := by
  have hfill : Hands (Rewriter.fill place (some e) >>= f) b
      ([] ++ (todo.flatMap (·.node.visited) ++ [n])) := (pure e).bind hf
  have hall : Hands (x >>= fun out => Rewriter.fill place out >>= f) b _ := hx.bind hfill
  rwa [List.nil_append, ← List.append_assoc] at hall

/-- A sequence is kept. -/
theorem sequence {n : Node} {todo : List Child} {make : α → Node} {as : List α}
    {x : Rewriting (σ × List (HookCall ε)) ε (List α)}
    {f : List α → Rewriting (σ × List (HookCall ε)) ε β}
    (hx : Hands x as ((as.map make).flatMap Node.visited)) (hf : Rest n todo (f as) b) :
    Rest n (as.map (.inSequence ∘ make) ++ todo) (x >>= f) b := by
  have hall := hx.bind hf
  rw [← List.append_assoc] at hall
  rw [Rest, List.flatMap_append, List.flatMap_map]
  rw [List.flatMap_map] at hall
  exact hall

theorem lastSequence {n : Node} {make : α → Node} {as : List α}
    {x : Rewriting (σ × List (HookCall ε)) ε (List α)}
    {f : List α → Rewriting (σ × List (HookCall ε)) ε β}
    (hx : Hands x as ((as.map make).flatMap Node.visited)) (hf : Rest n [] (f as) b) :
    Rest n (as.map (.inSequence ∘ make)) (x >>= f) b := by
  have hall := hx.sequence hf
  rwa [List.append_nil] at hall

theorem cons {make : α → Node} {a : α} {as : List α}
    {x : Rewriting (σ × List (HookCall ε)) ε (Option α)}
    {xs : Rewriting (σ × List (HookCall ε)) ε (List α)}
    (hx : Hands x (some a) (make a).visited)
    (hxs : Hands xs as ((as.map make).flatMap Node.visited)) :
    Hands (x >>= fun out => xs >>= fun new => Pure.pure (out.toList ++ new)) (a :: as)
      (((a :: as).map make).flatMap Node.visited) := by
  have hrest : Hands (xs >>= fun new => Pure.pure ((some a).toList ++ new)) (a :: as)
      ((as.map make).flatMap Node.visited ++ []) := hxs.bind (pure (a :: as))
  have hall : Hands (x >>= fun out => xs >>= fun new => Pure.pure (out.toList ++ new))
      (a :: as) _ := hx.bind hrest
  rwa [List.append_nil] at hall

end Rewriting.Hands

open Rewriting (Hands)

section Keeping

variable {rw : Rewriter σ ε}

theorem hands_applyExpr (hkeeps : rw.KeepsAll) (e : Expr) :
    Hands (rw.recording.applyExpr e) (some e) [.expr e] := by
  cases e with
  | call => exact .apply hkeeps.call _
  | _ => exact .apply hkeeps.expr _

theorem hands_applyStmt (hkeeps : rw.KeepsAll) (s : Stmt) :
    Hands (rw.recording.applyStmt s) (some s) [.stmt s] := by
  cases s with
  | define => exact .apply hkeeps.define _
  | _ => exact .apply hkeeps.stmt _

mutual

theorem Expr.hands_rewrite (hkeeps : rw.KeepsAll) : ∀ e : Expr,
    Hands (e.rewrite rw.recording) (some e) (Node.expr e).visited
  | .number .. | .text .. | .name .. => .whole (hands_applyExpr hkeeps _)
  | .member _ receiver _ => .whole ((receiver.hands_rewrite hkeeps).filled (hands_applyExpr hkeeps _))
  | .call _ callee args keywords => .whole ((callee.hands_rewrite hkeeps).filled
    ((hands_rewriteExprs hkeeps args).sequence
      ((hands_rewriteKeywords hkeeps keywords).lastSequence (hands_applyExpr hkeeps _))))
  | .binary _ _ left right => .whole ((left.hands_rewrite hkeeps).filled
    ((right.hands_rewrite hkeeps).filled (hands_applyExpr hkeeps _)))
  | .negate _ operand => .whole ((operand.hands_rewrite hkeeps).filled (hands_applyExpr hkeeps _))
  | .compare _ _ left right => .whole ((left.hands_rewrite hkeeps).filled
    ((right.hands_rewrite hkeeps).filled (hands_applyExpr hkeeps _)))

theorem hands_rewriteExprs (hkeeps : rw.KeepsAll) : ∀ es : List Expr,
    Hands (rewriteExprs rw.recording es) es ((es.map Node.expr).flatMap Node.visited)
  | [] => .pure []
  | e :: es => (e.hands_rewrite hkeeps).cons (hands_rewriteExprs hkeeps es)

theorem hands_rewriteKeywords (hkeeps : rw.KeepsAll) : ∀ ks : List Keyword,
    Hands (rewriteKeywords rw.recording ks) ks ((ks.map Node.keyword).flatMap Node.visited)
  | [] => .pure []
  | .mk span name value :: ks => by
    have hkeyword : Hands ((Keyword.mk span name value).rewrite rw.recording)
        (some (.mk span name value)) (Node.keyword (.mk span name value)).visited :=
      .whole ((value.hands_rewrite hkeeps).filled (.apply hkeeps.keyword _))
    exact hkeyword.cons (hands_rewriteKeywords hkeeps ks)

end

mutual

theorem Stmt.hands_rewrite (hkeeps : rw.KeepsAll) : ∀ s : Stmt,
    Hands (s.rewrite rw.recording) (some s) (Node.stmt s).visited
  | .define _ _ _ body =>
    .whole ((hands_rewriteBlock hkeeps body).lastSequence (hands_applyStmt hkeeps _))
  | .give _ none | .pass _ => by
    simp only [Stmt.rewrite]
    exact .whole (hands_applyStmt hkeeps _)
  | .give _ (some value) => .whole ((value.hands_rewrite hkeeps).filled (hands_applyStmt hkeeps _))
  | .assign _ _ value => .whole ((value.hands_rewrite hkeeps).filled (hands_applyStmt hkeeps _))
  | .eval _ value => .whole ((value.hands_rewrite hkeeps).filled (hands_applyStmt hkeeps _))
  | .branch _ test body orelse => .whole ((test.hands_rewrite hkeeps).filled
    ((hands_rewriteBlock hkeeps body).sequence
      ((hands_rewriteBlock hkeeps orelse).lastSequence (hands_applyStmt hkeeps _))))
  | .loop _ test body => .whole ((test.hands_rewrite hkeeps).filled
    ((hands_rewriteBlock hkeeps body).lastSequence (hands_applyStmt hkeeps _)))

theorem hands_rewriteBlock (hkeeps : rw.KeepsAll) : ∀ block : List Stmt,
    Hands (rewriteBlock rw.recording block) block ((block.map Node.stmt).flatMap Node.visited)
  | [] => .pure []
  | s :: ss => (s.hands_rewrite hkeeps).cons (hands_rewriteBlock hkeeps ss)

end

/-- A rewriter that keeps everything leaves the program as it is, and every node is handed to a
hook. -/
theorem Program.handed_rewrite (hkeeps : rw.KeepsAll) (p : Program) (state : σ) : ∃ progress,
    p.rewrite rw.recording (state, []) = (.ok p, progress) ∧ progress.handed = p.visited := by
  obtain ⟨progress, hrun, hhanded⟩ := hands_rewriteBlock hkeeps p { state := (state, []) }
  have hrun' : (rewriteBlock rw.recording p).run.run { state := (state, []) } =
      (.ok p, progress) := hrun
  unfold Program.rewrite
  rw [hrun']
  exact ⟨_, rfl, hhanded⟩

end Keeping

/-- A walk shows the sights of a program in pre-order; where it stops at some of them, just those below
these are left out. A walk that stops nowhere shows the statements, expressions and keyword arguments
that a rewriter that keeps everything hands to its hooks, each as often. -/
theorem Program.sights_preorder (p : Program) :
    (∀ stop, p.sights stop =
      (p.sightings.filter fun t => !t.above.any stop).map Sighting.sight) ∧
    ∀ (rw : Rewriter σ ε) (state : σ), rw.KeepsAll → ∃ progress,
      p.rewrite rw.recording (state, []) = (.ok p, progress) ∧
      ((p.sights fun _ => false).filterMap Sight.node?).Perm progress.handed := by
  refine ⟨p.sights_eq, fun rw state hkeeps => ?_⟩
  obtain ⟨progress, hrun, hhanded⟩ := p.handed_rewrite hkeeps state
  refine ⟨progress, hrun, ?_⟩
  rw [p.nodes_sights, hhanded]
  exact p.visited_perm.symm

/-- A rewriter with no hooks of its own. -/
def Rewriter.idle : Rewriter Unit Error := {}

theorem Program.sights_preorder_idle : Rewriter.idle.KeepsAll ∧ ∃ progress,
    Program.rewrite Rewriter.idle.recording ((), [])
      [.eval none (.call none (.name none "f") [.number none 1] [])] =
        (.ok [.eval none (.call none (.name none "f") [.number none 1] [])], progress) ∧
    ((Program.sights (fun _ => false)
      [.eval none (.call none (.name none "f") [.number none 1] [])]).filterMap Sight.node?).Perm
        progress.handed := by
  have hkeeps : Rewriter.idle.KeepsAll :=
    ⟨fun _ _ => rfl, fun _ _ => rfl, fun _ _ => rfl, fun _ _ => rfl, fun _ _ => rfl⟩
  exact ⟨hkeeps, (Program.sights_preorder _).2 Rewriter.idle () hkeeps⟩

end Stampline
