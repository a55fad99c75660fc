import Mathlib.Data.List.ReduceOption
import Stampline.Proofs.Syntax.Postorder

/-!
# Visits of a rewriter

Every node is handed to its hook once, after all that is below it and with what took the place of its
children. The relation `Visits` says so for the calls of hooks of one rewriting. Rewriting stops at the
first hook that gives up, or that deletes an expression from a place which cannot be empty.
-/

namespace Stampline

variable {ε : Type}

/-! ## Calls of hooks -/

/-- The hooks of a rewriter. -/
inductive HookName where
  | define | stmt | call | expr | keyword
deriving DecidableEq, Repr

/-- The hook that deals with a node. Parameters have none. -/
def Node.hook? : Node → Option HookName
  | stmt (.define ..) => some .define
  | stmt _ => some .stmt
  | expr (.call ..) => some .call
  | expr _ => some .expr
  | keyword _ => some .keyword
  | param _ => none

/-- A verdict on a node of one sort, as one on a node. -/
def Verdict.map {α β : Type} (f : α → β) : Verdict α → Verdict β
  | keep a => keep (f a)
  | replace a => replace (f a)
  | delete => delete

/-- What takes the place of a node after a verdict, if anything does. -/
def Verdict.outcome {α : Type} : Verdict α → Option α
  | keep a | replace a => some a
  | delete => none

/-- A call of a hook. -/
structure HookCall (ε : Type) where
  /-- The hook. -/
  hook : HookName
  /-- The node that it was handed. -/
  handed : Node
  /-- What it decided, or why it gave up. -/
  result : Except ε (Verdict Node)

/-- What takes the place of the node that a hook was handed, or why rewriting stops there. -/
def HookCall.outcome (call : HookCall ε) : Except (RewriteFailure ε) (Option Node) :=
  match call.result with
  | .error reason => .error (.gaveUp reason)
  | .ok verdict => .ok verdict.outcome

/-! ## Visits -/

/-- A call of a hook and the node of the program that it is about. -/
structure Visit (ε : Type) where
  /-- The node. -/
  node : Node
  /-- The call. -/
  call : HookCall ε

namespace Visit

/-- Whether a node was replaced. -/
def replaces (v : Visit ε) : Bool :=
  match v.call.result with
  | .ok (.replace _) => true
  | _ => false

/-- Whether a node was deleted. -/
def deletes (v : Visit ε) : Bool :=
  match v.call.result with
  | .ok .delete => true
  | _ => false

end Visit

/-- The same node with what took the place of each of its visited children. What was deleted from a
sequence is left out. -/
inductive Node.Rebuilt : Node → List (Option Node) → Node → Prop where
  | leaf {n} (h : n.visitedChildren = []) : Rebuilt n [] n
  | define {span name params body} {outs : List (Option Stmt)} (h : outs.length = body.length) :
      Rebuilt (.stmt (.define span name params body)) (outs.map (·.map .stmt))
        (.stmt (.define span name params outs.reduceOption))
  | give {span value value'} :
      Rebuilt (.stmt (.give span (some value))) [some (.expr value')]
        (.stmt (.give span (some value')))
  | assign {span target value value'} :
      Rebuilt (.stmt (.assign span target value)) [some (.expr value')]
        (.stmt (.assign span target value'))
  | eval {span value value'} :
      Rebuilt (.stmt (.eval span value)) [some (.expr value')] (.stmt (.eval span value'))
  | branch {span test test' body orelse} {outs outs' : List (Option Stmt)}
      (h : outs.length = body.length) (h' : outs'.length = orelse.length) :
      Rebuilt (.stmt (.branch span test body orelse))
        (some (.expr test') :: (outs.map (·.map .stmt) ++ outs'.map (·.map .stmt)))
        (.stmt (.branch span test' outs.reduceOption outs'.reduceOption))
  | loop {span test test' body} {outs : List (Option Stmt)} (h : outs.length = body.length) :
      Rebuilt (.stmt (.loop span test body)) (some (.expr test') :: outs.map (·.map .stmt))
        (.stmt (.loop span test' outs.reduceOption))
  | member {span receiver receiver' id} :
      Rebuilt (.expr (.member span receiver id)) [some (.expr receiver')]
        (.expr (.member span receiver' id))
  | call {span callee callee' args keywords} {outs : List (Option Expr)}
      {outs' : List (Option Keyword)} (h : outs.length = args.length)
      (h' : outs'.length = keywords.length) :
      Rebuilt (.expr (.call span callee args keywords))
        (some (.expr callee') :: (outs.map (·.map .expr) ++ outs'.map (·.map .keyword)))
        (.expr (.call span callee' outs.reduceOption outs'.reduceOption))
  | binary {span op left left' right right'} :
      Rebuilt (.expr (.binary span op left right)) [some (.expr left'), some (.expr right')]
        (.expr (.binary span op left' right'))
  | negate {span operand operand'} :
      Rebuilt (.expr (.negate span operand)) [some (.expr operand')]
        (.expr (.negate span operand'))
  | compare {span op left left' right right'} :
      Rebuilt (.expr (.compare span op left right)) [some (.expr left'), some (.expr right')]
        (.expr (.compare span op left' right'))
  | keyword {span name value value'} :
      Rebuilt (.keyword (.mk span name value)) [some (.expr value')]
        (.keyword (.mk span name value'))

mutual

/-- The visits to a node and to those below it, and what takes its place in the end. The node is handed
to its hook once its children were visited, if that did not stop rewriting. -/
inductive Visits : Node → List (Visit ε) → Except (RewriteFailure ε) (Option Node) → Prop where
  | handed {n below outs call} (hbelow : VisitsAll n.visitedChildren below (.ok outs))
      (hhook : n.hook? = some call.hook) (hhanded : n.Rebuilt outs call.handed) :
      Visits n (below ++ [⟨n, call⟩]) call.outcome
  | stopped {n below e} (hbelow : VisitsAll n.visitedChildren below (.error e)) :
      Visits n below (.error e)

/-- The visits to nodes, one after the other, and to those below them. They stop where rewriting stops,
and where a place is left empty. -/
inductive VisitsAll :
    List Child → List (Visit ε) → Except (RewriteFailure ε) (List (Option Node)) → Prop where
  | nil : VisitsAll [] [] (.ok [])
  | cons {c cs visits rest out outs} (h : Visits c.node visits (.ok out))
      (hplace : out = none → c.place? = none) (hrest : VisitsAll cs rest (.ok outs)) :
      VisitsAll (c :: cs) (visits ++ rest) (.ok (out :: outs))
  | stopped {c cs visits e} (h : Visits c.node visits (.error e)) :
      VisitsAll (c :: cs) visits (.error e)
  | stoppedLater {c cs visits rest out e} (h : Visits c.node visits (.ok out))
      (hplace : out = none → c.place? = none) (hrest : VisitsAll cs rest (.error e)) :
      VisitsAll (c :: cs) (visits ++ rest) (.error e)
  | emptied {c cs visits place} (h : Visits c.node visits (.ok none))
      (hplace : c.place? = some place) : VisitsAll (c :: cs) visits (.error (.emptied place))

end

/-! ## The order of visits -/

mutual

/-- Visits follow the order of the nodes, and leave none out if rewriting does not stop. -/
theorem Visits.map_node {n : Node} {visits : List (Visit ε)}
    {result : Except (RewriteFailure ε) (Option Node)} :
    Visits n visits result → visits.map Visit.node <+: n.visited ∧
      ∀ out, result = .ok out → visits.map Visit.node = n.visited
  | .handed hbelow _ _ => by
    have hnodes := hbelow.map_node.2 _ rfl
    rw [n.visited_eq, List.map_append, hnodes]
    exact ⟨List.prefix_rfl, fun _ _ => rfl⟩
  | .stopped hbelow => by
    have hnodes := hbelow.map_node.1
    rw [n.visited_eq]
    exact ⟨hnodes.trans (List.prefix_append _ _), by simp⟩

theorem VisitsAll.map_node {cs : List Child} {visits : List (Visit ε)}
    {result : Except (RewriteFailure ε) (List (Option Node))} :
    VisitsAll cs visits result → visits.map Visit.node <+: cs.flatMap (·.node.visited) ∧
      ∀ outs, result = .ok outs → visits.map Visit.node = cs.flatMap (·.node.visited)
  | .nil => ⟨List.prefix_rfl, fun _ _ => rfl⟩
  | .cons h _ hrest => by
    have hnodes := h.map_node.2 _ rfl
    have hnodes' := hrest.map_node.2 _ rfl
    rw [List.map_append, List.flatMap_cons, hnodes, hnodes']
    exact ⟨List.prefix_rfl, fun _ _ => rfl⟩
  | .stoppedLater h _ hrest => by
    have hnodes := h.map_node.2 _ rfl
    have hnodes' := hrest.map_node.1
    rw [List.map_append, List.flatMap_cons, hnodes]
    exact ⟨(List.prefix_append_right_inj _).2 hnodes', by simp⟩
  | .stopped h | .emptied h _ => ⟨h.map_node.1.trans (List.prefix_append _ _), by simp⟩

end

/-! ## Why rewriting stops -/

/-- The children of a node and of those below it. -/
def Node.childrenBelow (n : Node) : List Child := n.nodes.flatMap Node.visitedChildren

/-- Why rewriting stops at a visit: the hook gave up, or it deleted a node from one of the places. -/
inductive Visit.Stops (last : Visit ε) (places : List Child) : RewriteFailure ε → Prop where
  | gaveUp {reason} (h : last.call.result = .error reason) : Stops last places (.gaveUp reason)
  | emptied {place} (h : last.call.result = .ok .delete) (hplace : ⟨some place, last.node⟩ ∈ places) :
      Stops last places (.emptied place)

theorem Node.visitedChildren_subset (n : Node) : n.visitedChildren ⊆ n.childrenBelow := by
  rw [childrenBelow, n.nodes_eq, List.flatMap_cons]
  exact List.subset_append_left _ _

theorem Node.childrenBelow_subset {n : Node} {c : Child} (h : c ∈ n.visitedChildren) :
    c.node.childrenBelow ⊆ n.childrenBelow := by
  intro d hd
  obtain ⟨m, hm, hd⟩ := List.mem_flatMap.1 hd
  refine List.mem_flatMap_of_mem ?_ hd
  rw [n.nodes_eq]
  exact .tail _ (List.mem_flatMap_of_mem (mem_children_of_mem_visitedChildren h) hm)

theorem HookCall.outcome_eq_ok_none {call : HookCall ε} (h : call.outcome = .ok none) :
    call.result = .ok .delete := by
  unfold outcome at h
  cases hresult : call.result with
  | error => rw [hresult] at h; cases h
  | ok verdict =>
    rw [hresult] at h
    cases verdict with
    | delete => rfl
    | keep | replace => cases h

theorem HookCall.outcome_eq_error {call : HookCall ε} {e : RewriteFailure ε}
    (h : call.outcome = .error e) : ∃ reason, call.result = .error reason ∧ e = .gaveUp reason := by
  unfold outcome at h
  cases hresult : call.result with
  | ok => rw [hresult] at h; cases h
  | error reason =>
    rw [hresult] at h
    exact ⟨reason, rfl, (Except.error.inj h).symm⟩

/-- What nothing takes the place of was deleted by its hook. -/
theorem Visits.deleted {n : Node} {visits : List (Visit ε)} (h : Visits n visits (.ok none)) :
    ∃ front call, visits = front ++ [⟨n, call⟩] ∧ call.result = .ok .delete := by
  generalize hresult : Except.ok none = result at h
  cases h with
  | handed => exact ⟨_, _, rfl, HookCall.outcome_eq_ok_none hresult.symm⟩
  | stopped => cases hresult

section Stops

variable {places : List Child}

mutual

/-- Rewriting stops with the last visit. -/
theorem Visits.stops {n : Node} {visits : List (Visit ε)}
    {result : Except (RewriteFailure ε) (Option Node)} :
    Visits n visits result → n.childrenBelow ⊆ places → ∀ e, result = .error e →
      ∃ front last, visits = front ++ [last] ∧ last.Stops places e
  | .handed _ _ _, _, e, he => by
    obtain ⟨reason, hreason, rfl⟩ := HookCall.outcome_eq_error he
    exact ⟨_, _, rfl, .gaveUp hreason⟩
  | .stopped hbelow, hplaces, e, he => by
    exact hbelow.stops (List.Subset.trans n.visitedChildren_subset hplaces)
      (fun _ hc => List.Subset.trans (n.childrenBelow_subset hc) hplaces) e (by cases he; rfl)

theorem VisitsAll.stops {cs : List Child} {visits : List (Visit ε)}
    {result : Except (RewriteFailure ε) (List (Option Node))} :
    VisitsAll cs visits result → cs ⊆ places → (∀ c ∈ cs, c.node.childrenBelow ⊆ places) →
      ∀ e, result = .error e → ∃ front last, visits = front ++ [last] ∧ last.Stops places e
  | .nil, _, _, _, he | .cons .., _, _, _, he => by cases he
  | .stopped h, _, hbelow, e, he => h.stops (hbelow _ (.head _)) e (by cases he; rfl)
  | .stoppedLater _ _ hrest, hplaces, hbelow, e, he => by
    obtain ⟨front, last, rfl, hlast⟩ := hrest.stops (List.subset_of_cons_subset hplaces)
      (List.forall_mem_cons.1 hbelow).2 e (by cases he; rfl)
    exact ⟨_ ++ front, last, (List.append_assoc ..).symm, hlast⟩
  | .emptied h hplace, hplaces, _, e, he => by
    obtain ⟨front, call, hvisits, hdelete⟩ := h.deleted
    cases he
    refine ⟨front, _, hvisits, .emptied hdelete ?_⟩
    rw [← hplace]
    exact hplaces (.head _)

end

end Stops

end Stampline
