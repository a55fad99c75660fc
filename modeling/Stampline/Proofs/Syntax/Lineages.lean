import Stampline.Proofs.Stamp.Located

/-!
# Nodes and the nodes above them

A node without a place goes where the nearest node above it stands that has one. This is said of the
list of all nodes of a program, each with the nodes above it, and of the program that is located as a
whole: it keeps its form, every node that stood somewhere stays there, and the nodes that stood nowhere
are counted. The search for a node that stands nowhere goes through the same list.
-/

namespace Stampline

/-! ## Lineages -/

/-- A node and the nodes above it, the nearest first. -/
structure Lineage where
  /-- The node. -/
  node : Node
  /-- The nodes above it, the nearest first. -/
  above : List Node

/-- The place of the nearest of some nodes that has one. -/
def nearestPlace (above : List Node) : Span := (above.findSome? Node.span).getD .root

/-- Where a node is to stand: it stays where it stands, or goes where the nearest node above it stands
that stands somewhere. -/
def Lineage.place (l : Lineage) : Span := l.node.span.getD (nearestPlace l.above)

theorem nearestPlace_cons (n : Node) (above : List Node) :
    nearestPlace (n :: above) = (Lineage.mk n above).place := by
  unfold nearestPlace Lineage.place
  rw [List.findSome?_cons]
  cases n.span <;> rfl

namespace Node

/-- The lineages of a node and of those below it, in the order of the source. The nodes above the node
are `above`. -/
def lineages (above : List Node) (n : Node) : List Lineage :=
  ⟨n, above⟩ :: n.children.attach.flatMap fun m => m.1.lineages (n :: above)
termination_by n.nodes.length
decreasing_by exact length_nodes_lt m.2

theorem lineages_eq (above : List Node) (n : Node) :
    n.lineages above = ⟨n, above⟩ :: n.children.flatMap (lineages (n :: above)) := by
  rw [lineages]
  simp

/-- Every node has its lineage. -/
theorem map_node_lineages (above : List Node) (n : Node) :
    (n.lineages above).map Lineage.node = n.nodes := by
  rw [n.lineages_eq, n.nodes_eq, List.map_cons, List.map_flatMap]
  congr 1
  exact List.flatMap_congr fun m hm => m.map_node_lineages (n :: above)
termination_by n.nodes.length
decreasing_by exact length_nodes_lt hm

end Node

/-- The lineages of the nodes of a program. -/
def Program.lineages (p : Program) : List Lineage := (p.map Node.stmt).flatMap (Node.lineages [])

theorem Program.map_node_lineages (p : Program) : p.lineages.map Lineage.node = p.nodes := by
  rw [lineages, nodes, nodesIn_eq_flatMap, List.map_flatMap]
  exact List.flatMap_congr fun n _ => n.map_node_lineages []

/-! ## Locating -/

/-- The number of nodes that stand nowhere. -/
def unlocated (nodes : List Node) : Nat := nodes.countP (·.span.isNone)

@[simp] theorem unlocated_nil : unlocated [] = 0 := rfl

@[simp] theorem unlocated_cons (n : Node) (nodes : List Node) :
    unlocated (n :: nodes) = (if n.span.isNone then 1 else 0) + unlocated nodes := by
  rw [unlocated, List.countP_cons, Nat.add_comm, unlocated]

@[simp] theorem unlocated_append (nodes more : List Node) :
    unlocated (nodes ++ more) = unlocated nodes + unlocated more := List.countP_append

/-- Nodes stand at the places of the given lineages. -/
def StandAt (nodes : List Node) (lineages : List Lineage) : Prop :=
  nodes.map Node.span = lineages.map (some ·.place)

namespace StandAt

variable {ns ns' : List Node} {ls ls' : List Lineage} {n new : Node} {above : List Node}

theorem append (h : StandAt ns ls) (h' : StandAt ns' ls') : StandAt (ns ++ ns') (ls ++ ls') := by
  unfold StandAt at *
  rw [List.map_append, List.map_append, h, h']

/-- A node stands where the nearest node from it upwards stood, and those below it likewise. -/
theorem node (hspan : new.span = some (nearestPlace (n :: above)))
    (hbelow : StandAt (new.children.flatMap Node.nodes)
      (n.children.flatMap (Node.lineages (n :: above)))) :
    StandAt new.nodes (n.lineages above) := by
  unfold StandAt at *
  rw [new.nodes_eq, n.lineages_eq, List.map_cons, List.map_cons, hspan, hbelow, nearestPlace_cons]

end StandAt

/-- A node settles where the nearest node from it upwards stands. -/
theorem Locates.settled {α : Type} {n : Node} {above : List Node} {g : Span → StateM Nat α} {k : Nat}
    {P : α → Prop} (h : Locates (g (nearestPlace (n :: above))) k P)
    (hk : k = unlocated (n.children.flatMap Node.nodes)) :
    Locates (settle (nearestPlace above) n.span >>= g) (unlocated n.nodes) P := by
  rw [n.nodes_eq, unlocated_cons, ← hk]
  rw [nearestPlace_cons, Lineage.place] at h
  cases hspan : n.span with
  | none =>
    rw [hspan] at h
    exact .moves h rfl
  | some s =>
    rw [hspan] at h
    exact .stays rfl (by simpa using h)

mutual

theorem Expr.locates : ∀ (e : Expr) (above : List Node),
    Locates (e.locate (nearestPlace above)) (unlocated (Node.expr e).nodes) fun new =>
      StandAt (Node.expr new).nodes ((Node.expr e).lineages above)
  | .number span value, _ => .settled (n := .expr (.number span value)) (.pure (.node rfl rfl)) rfl
  | .text span value, _ => .settled (n := .expr (.text span value)) (.pure (.node rfl rfl)) rfl
  | .name span id, _ => .settled (n := .expr (.name span id)) (.pure (.node rfl rfl)) rfl
  | .member span receiver id, _ => by
    refine .settled (n := .expr (.member span receiver id)) ((receiver.locates _).bind
      (fun new h => .pure (.node rfl ?_)) rfl) (by simp [Node.children])
    simpa [Node.children] using h
  | .call span callee args keywords, _ => by
    refine .settled (n := .expr (.call span callee args keywords)) ((callee.locates _).bind
      (fun new h => (locates_exprs args _).bind (fun new' hargs => (locates_keywords keywords _).bind
        (fun new'' hkeywords => .pure (.node rfl ?_)) rfl) rfl) rfl) (by simp [Node.children])
    simp only [Node.children, List.flatMap_cons, List.flatMap_append]
    exact h.append (hargs.append hkeywords)
  | .binary span op left right, _ => by
    refine .settled (n := .expr (.binary span op left right)) ((left.locates _).bind
      (fun new h => (right.locates _).bind (fun new' h' => .pure (.node rfl ?_)) rfl) rfl)
        (by simp [Node.children])
    simpa [Node.children] using h.append h'
  | .negate span operand, _ => by
    refine .settled (n := .expr (.negate span operand)) ((operand.locates _).bind
      (fun new h => .pure (.node rfl ?_)) rfl) (by simp [Node.children])
    simpa [Node.children] using h
  | .compare span op left right, _ => by
    refine .settled (n := .expr (.compare span op left right)) ((left.locates _).bind
      (fun new h => (right.locates _).bind (fun new' h' => .pure (.node rfl ?_)) rfl) rfl)
        (by simp [Node.children])
    simpa [Node.children] using h.append h'

theorem locates_exprs : ∀ (es : List Expr) (above : List Node),
    Locates (locateExprs (nearestPlace above) es)
      (unlocated ((es.map Node.expr).flatMap Node.nodes)) fun new =>
      StandAt ((new.map Node.expr).flatMap Node.nodes)
        ((es.map Node.expr).flatMap (Node.lineages above))
  | [], _ => .pure rfl
  | e :: es, _ => (e.locates _).bind (fun _ h => (locates_exprs es _).bind
    (fun _ h' => .pure (h.append h')) rfl) (by simp)

theorem Keyword.locates : ∀ (k : Keyword) (above : List Node),
    Locates (k.locate (nearestPlace above)) (unlocated (Node.keyword k).nodes) fun new =>
      StandAt (Node.keyword new).nodes ((Node.keyword k).lineages above)
  | .mk span name value, _ => by
    refine .settled (n := .keyword (.mk span name value)) ((value.locates _).bind
      (fun new h => .pure (.node rfl ?_)) rfl) (by simp [Node.children])
    simpa [Node.children] using h

theorem locates_keywords : ∀ (ks : List Keyword) (above : List Node),
    Locates (locateKeywords (nearestPlace above) ks)
      (unlocated ((ks.map Node.keyword).flatMap Node.nodes)) fun new =>
      StandAt ((new.map Node.keyword).flatMap Node.nodes)
        ((ks.map Node.keyword).flatMap (Node.lineages above))
  | [], _ => .pure rfl
  | k :: ks, _ => (k.locates _).bind (fun _ h => (locates_keywords ks _).bind
    (fun _ h' => .pure (h.append h')) rfl) (by simp)

end

theorem locates_allParams : ∀ (params : List Param) (above : List Node),
    Locates (locateParams (nearestPlace above) params)
      (unlocated ((params.map Node.param).flatMap Node.nodes)) fun new =>
      StandAt ((new.map Node.param).flatMap Node.nodes)
        ((params.map Node.param).flatMap (Node.lineages above))
  | [], _ => .pure rfl
  | p :: ps, above => by
    have hparam : Locates (settle (nearestPlace above) p.span) (unlocated (Node.param p).nodes)
        fun here => StandAt (Node.param { p with span := here }).nodes
          ((Node.param p).lineages above) :=
      .settled (n := .param p) (.pure (.node rfl rfl)) rfl
    exact hparam.bind (fun _ h => (locates_allParams ps _).bind
      (fun _ h' => .pure (h.append h')) rfl) (by simp)

mutual

theorem Stmt.locates : ∀ (s : Stmt) (above : List Node),
    Locates (s.locate (nearestPlace above)) (unlocated (Node.stmt s).nodes) fun new =>
      StandAt (Node.stmt new).nodes ((Node.stmt s).lineages above)
  | .define span name params body, _ => by
    refine .settled (n := .stmt (.define span name params body)) ((locates_allParams params _).bind
      (fun new h => (locates_block body _).bind (fun new' h' => .pure (.node rfl ?_)) rfl) rfl)
        (by simp [Node.children])
    simp only [Node.children, List.flatMap_append]
    exact h.append h'
  | .give span none, _ => .settled (n := .stmt (.give span none)) (.pure (.node rfl rfl)) rfl
  | .give span (some value), _ => by
    refine .settled (n := .stmt (.give span (some value))) ((value.locates _).bind
      (fun new h => .pure (.node rfl ?_)) rfl) (by simp [Node.children])
    simpa [Node.children] using h
  | .assign span target value, _ => by
    refine .settled (n := .stmt (.assign span target value)) ((value.locates _).bind
      (fun new h => .pure (.node rfl ?_)) rfl) (by simp [Node.children])
    simpa [Node.children] using h
  | .eval span value, _ => by
    refine .settled (n := .stmt (.eval span value)) ((value.locates _).bind
      (fun new h => .pure (.node rfl ?_)) rfl) (by simp [Node.children])
    simpa [Node.children] using h
  | .branch span test body orelse, _ => by
    refine .settled (n := .stmt (.branch span test body orelse)) ((test.locates _).bind
      (fun new h => (locates_block body _).bind (fun new' h' => (locates_block orelse _).bind
        (fun new'' h'' => .pure (.node rfl ?_)) rfl) rfl) rfl) (by simp [Node.children])
    simp only [Node.children, List.flatMap_cons, List.flatMap_append]
    exact h.append (h'.append h'')
  | .loop span test body, _ => by
    refine .settled (n := .stmt (.loop span test body)) ((test.locates _).bind
      (fun new h => (locates_block body _).bind (fun new' h' => .pure (.node rfl ?_)) rfl) rfl)
        (by simp [Node.children])
    simp only [Node.children, List.flatMap_cons]
    exact h.append h'
  | .pass span, _ => .settled (n := .stmt (.pass span)) (.pure (.node rfl rfl)) rfl

theorem locates_block : ∀ (block : List Stmt) (above : List Node),
    Locates (locateBlock (nearestPlace above) block)
      (unlocated ((block.map Node.stmt).flatMap Node.nodes)) fun new =>
      StandAt ((new.map Node.stmt).flatMap Node.nodes)
        ((block.map Node.stmt).flatMap (Node.lineages above))
  | [], _ => .pure rfl
  | s :: ss, _ => (s.locates _).bind (fun _ h => (locates_block ss _).bind
    (fun _ h' => .pure (h.append h')) rfl) (by simp)

end

/-! ## Located programs -/

theorem settle_some (outer s : Span) : settle outer (some s) = pure s := rfl

mutual

theorem Expr.locate_of_located : ∀ (e : Expr) (outer : Span),
    (∀ n ∈ e.nodes, n.span.isSome) → e.locate outer = pure e
  | .number .., outer, h | .text .., outer, h | .name .., outer, h => by
    obtain ⟨s, rfl⟩ := Option.isSome_iff_exists.1 (h _ (.head _))
    rfl
  | .member _ e _, outer, h | .negate _ e, outer, h => by
    rw [Expr.nodes, List.forall_mem_cons] at h
    obtain ⟨s, rfl⟩ := Option.isSome_iff_exists.1 h.1
    simp only [Expr.locate, settle_some, e.locate_of_located s h.2, pure_bind]
  | .call _ callee args keywords, outer, h => by
    simp only [Expr.nodes, List.forall_mem_cons, List.forall_mem_append] at h
    obtain ⟨s, rfl⟩ := Option.isSome_iff_exists.1 h.1
    simp only [Expr.locate, settle_some, callee.locate_of_located s h.2.1,
      locateExprs_of_located args s h.2.2.1, locateKeywords_of_located keywords s h.2.2.2, pure_bind]
  | .binary _ _ left right, outer, h | .compare _ _ left right, outer, h => by
    simp only [Expr.nodes, List.forall_mem_cons, List.forall_mem_append] at h
    obtain ⟨s, rfl⟩ := Option.isSome_iff_exists.1 h.1
    simp only [Expr.locate, settle_some, left.locate_of_located s h.2.1, right.locate_of_located s h.2.2,
      pure_bind]

theorem locateExprs_of_located : ∀ (es : List Expr) (outer : Span),
    (∀ n ∈ nodesOf es, n.span.isSome) → locateExprs outer es = pure es
  | [], _, _ => rfl
  | e :: es, outer, h => by
    rw [nodesOf, List.forall_mem_append] at h
    simp only [locateExprs, e.locate_of_located outer h.1, locateExprs_of_located es outer h.2,
      pure_bind]

theorem locateKeywords_of_located : ∀ (ks : List Keyword) (outer : Span),
    (∀ n ∈ nodesBy ks, n.span.isSome) → locateKeywords outer ks = pure ks
  | [], _, _ => rfl
  | .mk _ _ value :: ks, outer, h => by
    simp only [nodesBy, List.forall_mem_cons, List.forall_mem_append] at h
    obtain ⟨s, rfl⟩ := Option.isSome_iff_exists.1 h.1
    simp only [locateKeywords, Keyword.locate, settle_some, value.locate_of_located s h.2.1,
      locateKeywords_of_located ks outer h.2.2, pure_bind]

end

theorem locateParams_of_located : ∀ (params : List Param) (outer : Span),
    (∀ n ∈ params.map Node.param, n.span.isSome) → locateParams outer params = pure params
  | [], _, _ => rfl
  | p :: ps, outer, h => by
    rw [List.map_cons, List.forall_mem_cons] at h
    obtain ⟨s, hspan⟩ := Option.isSome_iff_exists.1 (show p.span.isSome from h.1)
    simp only [locateParams, hspan, settle_some, locateParams_of_located ps outer h.2, pure_bind]
    rw [← hspan]

mutual

theorem Stmt.locate_of_located : ∀ (s : Stmt) (outer : Span),
    (∀ n ∈ s.nodes, n.span.isSome) → s.locate outer = pure s
  | .define _ _ params body, outer, h => by
    simp only [Stmt.nodes, List.forall_mem_cons, List.forall_mem_append] at h
    obtain ⟨s, rfl⟩ := Option.isSome_iff_exists.1 h.1
    simp only [Stmt.locate, settle_some, locateParams_of_located params s h.2.1,
      locateBlock_of_located body s h.2.2, pure_bind]
  | .give _ none, outer, h | .pass _, outer, h => by
    obtain ⟨s, rfl⟩ := Option.isSome_iff_exists.1 (h _ (.head _))
    rfl
  | .give _ (some e), outer, h | .assign _ _ e, outer, h | .eval _ e, outer, h => by
    rw [Stmt.nodes, List.forall_mem_cons] at h
    obtain ⟨s, rfl⟩ := Option.isSome_iff_exists.1 h.1
    simp only [Stmt.locate, settle_some, e.locate_of_located s h.2, pure_bind]
  | .branch _ test body orelse, outer, h => by
    simp only [Stmt.nodes, List.forall_mem_cons, List.forall_mem_append] at h
    obtain ⟨s, rfl⟩ := Option.isSome_iff_exists.1 h.1
    simp only [Stmt.locate, settle_some, test.locate_of_located s h.2.1,
      locateBlock_of_located body s h.2.2.1, locateBlock_of_located orelse s h.2.2.2, pure_bind]
  | .loop _ test body, outer, h => by
    simp only [Stmt.nodes, List.forall_mem_cons, List.forall_mem_append] at h
    obtain ⟨s, rfl⟩ := Option.isSome_iff_exists.1 h.1
    simp only [Stmt.locate, settle_some, test.locate_of_located s h.2.1, locateBlock_of_located body s h.2.2,
      pure_bind]

theorem locateBlock_of_located : ∀ (block : List Stmt) (outer : Span),
    (∀ n ∈ nodesIn block, n.span.isSome) → locateBlock outer block = pure block
  | [], _, _ => rfl
  | s :: ss, outer, h => by
    rw [nodesIn, List.forall_mem_append] at h
    simp only [locateBlock, s.locate_of_located outer h.1, locateBlock_of_located ss outer h.2,
      pure_bind]

end

/-- A program of which every node stands somewhere is located as it is. -/
theorem Program.locate_of_located {p : Program} (h : p.firstUnlocated? = none) :
    p.locate = (p, 0) := by
  rw [locate, locateBlock_of_located p .root (firstUnlocated?_eq_none.1 h)]
  rfl

/-- Locating a program keeps its form. Every node goes where the nearest node stands, from it upwards,
that stands somewhere, so that what stood somewhere stays. What is counted are the nodes that stood
nowhere, and the first of them is the one that a search finds; afterwards there are none, so that there
is nothing left to locate. -/
theorem Program.locate_places (p : Program) :
    p.locate.1.erase = p.erase ∧
    p.lineages.map Lineage.node = p.nodes ∧
    p.locate.1.nodes.map Node.span = p.lineages.map (some ·.place) ∧
    p.locate.2 = p.nodes.countP (·.span.isNone) ∧
    p.firstUnlocated? = (p.nodes.find? (·.span.isNone)).map Node.kind ∧
    (p.firstUnlocated? = none ↔ p.locate.2 = 0) ∧
    p.locate.1.isLocated = true ∧ p.locate.1.locate = (p.locate.1, 0) := by
  obtain ⟨hcount, hplaces⟩ := locates_block p [] 0
  rw [← nodesIn_eq_flatMap] at hcount
  have hmade : p.locate.2 = p.nodes.countP (·.span.isNone) := hcount.trans (Nat.zero_add _)
  have hlocated := p.firstUnlocated?_locate
  refine ⟨p.erase_locate, p.map_node_lineages, ?_, hmade, p.firstUnlocated?_eq, ?_, ?_,
    locate_of_located hlocated⟩
  · rw [nodes, nodesIn_eq_flatMap]
    exact hplaces
  · rw [hmade, List.countP_eq_zero, firstUnlocated?_eq_none]
    simp [Option.isSome_iff_ne_none]
  · rw [isLocated, hlocated]
    rfl

end Stampline
