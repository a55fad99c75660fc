import Stampline.Error
import Stampline.Proofs.Syntax.Visits

/-!
# Recorded rewriting

A rewriter is recorded: its hooks do what they did, and note what they were handed and how they answered.
The notes are the calls of visits to the nodes of the program, whatever the hooks answer. Nodes that a
hook makes up are not handed to any.
-/

namespace Stampline

variable {σ ε : Type}

/-! ## Recording -/

/-- A hook that notes its calls. -/
def Hook.recording {α : Type} (name : HookName) (make : α → Node) (hook : Hook σ ε α) :
    Hook (σ × List (HookCall ε)) ε α := fun a noted =>
  let answer := hook a noted.1
  { result := answer.result
    state := (answer.state, noted.2 ++ [⟨name, make a, answer.result.map (Verdict.map make)⟩])
    log := answer.log }

/-- A rewriter that notes the calls of its hooks. -/
def Rewriter.recording (rw : Rewriter σ ε) : Rewriter (σ × List (HookCall ε)) ε where
  name := rw.name
  define := rw.define.recording .define .stmt
  stmt := rw.stmt.recording .stmt .stmt
  call := rw.call.recording .call .expr
  expr := rw.expr.recording .expr .expr
  keyword := rw.keyword.recording .keyword .keyword

/-- Progress with notes on the calls of hooks. -/
def Progress.noting (p : Progress σ) (notes : List (HookCall ε)) : Progress (σ × List (HookCall ε)) where
  state := (p.state, notes)
  count := p.count
  log := p.log

/-! ## Visits to what is left of a node -/

theorem VisitsAll.append {cs cs' : List Child} {visits visits' : List (Visit ε)}
    {outs outs' : List (Option Node)} (h' : VisitsAll cs' visits' (.ok outs')) :
    VisitsAll cs visits (.ok outs) → VisitsAll (cs ++ cs') (visits ++ visits') (.ok (outs ++ outs'))
  | .nil => h'
  | .cons h hplace hrest => by
    rw [List.append_assoc]
    exact .cons h hplace (append h' hrest)

theorem VisitsAll.append_error {cs cs' : List Child} {visits visits' : List (Visit ε)}
    {outs : List (Option Node)} {e : RewriteFailure ε} (h' : VisitsAll cs' visits' (.error e)) :
    VisitsAll cs visits (.ok outs) → VisitsAll (cs ++ cs') (visits ++ visits') (.error e)
  | .nil => h'
  | .cons h hplace hrest => by
    rw [List.append_assoc]
    exact .stoppedLater h hplace (append_error h' hrest)

theorem VisitsAll.error_append {cs cs' : List Child} {visits : List (Visit ε)}
    {e : RewriteFailure ε} : VisitsAll cs visits (.error e) → VisitsAll (cs ++ cs') visits (.error e)
  | .stopped h => .stopped h
  | .stoppedLater h hplace hrest => .stoppedLater h hplace hrest.error_append
  | .emptied h hplace => .emptied h hplace

theorem VisitsAll.length_eq {cs : List Child} {visits : List (Visit ε)} {outs : List (Option Node)} :
    VisitsAll cs visits (.ok outs) → outs.length = cs.length
  | .nil => rfl
  | .cons _ _ hrest => by rw [List.length_cons, List.length_cons, hrest.length_eq]

/-- The visits to a sequence, and what is left of it. -/
def VisitsSequence {α : Type} (make : α → Node) (as : List α) (visits : List (Visit ε))
    (result : Except (RewriteFailure ε) (List α)) : Prop :=
  ∃ outs : Except (RewriteFailure ε) (List (Option α)), result = outs.map List.reduceOption ∧
    VisitsAll (as.map (.inSequence ∘ make)) visits (outs.map (List.map (Option.map make)))

namespace VisitsSequence

variable {α : Type} {make : α → Node} {a : α} {as : List α} {visits rest : List (Visit ε)}
  {e : RewriteFailure ε}

theorem nil : VisitsSequence (ε := ε) make [] [] (.ok []) := ⟨.ok [], rfl, .nil⟩

theorem exists_of_ok {new : List α} (h : VisitsSequence make as visits (.ok new)) :
    ∃ outs : List (Option α), new = outs.reduceOption ∧
      VisitsAll (as.map (.inSequence ∘ make)) visits (.ok (outs.map (Option.map make))) := by
  obtain ⟨outs, hnew, hvisits⟩ := h
  cases outs with
  | error => cases hnew
  | ok outs => exact ⟨outs, Except.ok.inj hnew, hvisits⟩

theorem of_error (h : VisitsSequence make as visits (.error e)) :
    VisitsAll (as.map (.inSequence ∘ make)) visits (.error e) := by
  obtain ⟨outs, he, hvisits⟩ := h
  cases outs with
  | ok => cases he
  | error =>
    cases he
    exact hvisits

theorem stopped (h : Visits (make a) visits (.error e)) :
    VisitsSequence make (a :: as) visits (.error e) := ⟨.error e, rfl, .stopped h⟩

theorem stoppedLater {out : Option α} (h : Visits (make a) visits (.ok (out.map make)))
    (hrest : VisitsSequence make as rest (.error e)) :
    VisitsSequence make (a :: as) (visits ++ rest) (.error e) :=
  ⟨.error e, rfl, .stoppedLater (c := .inSequence (make a)) h (fun _ => rfl) hrest.of_error⟩

theorem cons {out : Option α} {new : List α} (h : Visits (make a) visits (.ok (out.map make)))
    (hrest : VisitsSequence make as rest (.ok new)) :
    VisitsSequence make (a :: as) (visits ++ rest) (.ok (out.toList ++ new)) := by
  obtain ⟨outs, rfl, hvisits⟩ := hrest.exists_of_ok
  refine ⟨.ok (out :: outs), ?_, .cons (c := .inSequence (make a)) h (fun _ => rfl) hvisits⟩
  cases out <;> rfl

end VisitsSequence

/-- The visits to what is left of a node, and what takes its place in the end. Of its children those of
`todo` are left to visit, and `outs` took the place of the others. -/
inductive VisitsRest (n : Node) (outs : List (Option Node)) (todo : List Child) :
    List (Visit ε) → Except (RewriteFailure ε) (Option Node) → Prop where
  | handed {below outs' call} (hbelow : VisitsAll todo below (.ok outs'))
      (hhook : n.hook? = some call.hook) (hhanded : n.Rebuilt (outs ++ outs') call.handed) :
      VisitsRest n outs todo (below ++ [⟨n, call⟩]) call.outcome
  | stopped {below e} (hbelow : VisitsAll todo below (.error e)) :
      VisitsRest n outs todo below (.error e)

namespace VisitsRest

variable {n : Node} {outs outs' : List (Option Node)} {cs todo : List Child}
  {visits visits' : List (Visit ε)} {result : Except (RewriteFailure ε) (Option Node)}
  {e : RewriteFailure ε}

theorem whole (h : VisitsRest n [] n.visitedChildren visits result) : Visits n visits result := by
  cases h with
  | handed hbelow hhook hhanded => exact .handed hbelow hhook hhanded
  | stopped hbelow => exact .stopped hbelow

theorem after (h : VisitsAll cs visits (.ok outs'))
    (hrest : VisitsRest n (outs ++ outs') todo visits' result) :
    VisitsRest n outs (cs ++ todo) (visits ++ visits') result := by
  cases hrest with
  | handed hbelow hhook hhanded =>
    rw [← List.append_assoc]
    exact .handed (.append hbelow h) hhook (List.append_assoc outs _ _ ▸ hhanded)
  | stopped hbelow => exact .stopped (.append_error hbelow h)

theorem of_error (h : VisitsAll cs visits (.error e)) :
    VisitsRest n outs (cs ++ todo) visits (.error e) := .stopped h.error_append

end VisitsRest

/-! ## Rewriting visits -/

/-- Rewriting does the same when it is recorded. It notes the calls of some visits that have the property
`P` together with its result, and counts what they replace and delete. -/
def Rewriting.Notes {α : Type} (x : Rewriting σ ε α) (y : Rewriting (σ × List (HookCall ε)) ε α)
    (P : List (Visit ε) → Except (RewriteFailure ε) α → Prop) : Prop :=
  ∀ (before : Progress σ) (notes : List (HookCall ε)), ∃ visits,
    y (before.noting notes) =
      ((x before).1, (x before).2.noting (notes ++ visits.map Visit.call)) ∧
    P visits (x before).1 ∧
    (x before).2.count = ⟨before.count.replaced + visits.countP Visit.replaces,
      before.count.deleted + visits.countP Visit.deletes⟩

namespace Rewriting.Notes

variable {α β : Type} {x : Rewriting σ ε α} {y : Rewriting (σ × List (HookCall ε)) ε α}
  {f : α → Rewriting σ ε β} {g : α → Rewriting (σ × List (HookCall ε)) ε β}
  {P P' : List (Visit ε) → Except (RewriteFailure ε) α → Prop}
  {Q : List (Visit ε) → Except (RewriteFailure ε) β → Prop}

theorem pure {a : α} (h : P [] (.ok a)) : Notes (Pure.pure a : Rewriting σ ε α) (Pure.pure a) P :=
  fun before notes => ⟨[], by rw [List.map_nil, List.append_nil]; rfl, h, rfl⟩

theorem throw {e : RewriteFailure ε} (h : P [] (.error e)) :
    Notes (MonadExcept.throw e : Rewriting σ ε α) (MonadExcept.throw e) P :=
  fun before notes => ⟨[], by rw [List.map_nil, List.append_nil]; rfl, h, rfl⟩

theorem imp (hx : Notes x y P) (h : ∀ visits result, P visits result → P' visits result) :
    Notes x y P' := by
  intro before notes
  obtain ⟨visits, hy, hP, hcount⟩ := hx before notes
  exact ⟨visits, hy, h _ _ hP, hcount⟩

theorem bind (hx : Notes x y P) (herror : ∀ visits e, P visits (.error e) → Q visits (.error e))
    (hf : ∀ visits a, P visits (.ok a) →
      Notes (f a) (g a) fun visits' result => Q (visits ++ visits') result) :
    Notes (x >>= f) (y >>= g) Q := by
  intro before notes
  obtain ⟨visits, hy, hP, hcount⟩ := hx before notes
  cases hresult : x before with
  | mk result middle =>
    rw [hresult] at hy hP hcount
    cases result with
    | error e =>
      rw [bind_of_error hresult, bind_of_error hy]
      exact ⟨visits, rfl, herror _ _ hP, hcount⟩
    | ok a =>
      rw [bind_of_ok hresult, bind_of_ok hy]
      obtain ⟨visits', hg, hQ, hcount'⟩ := hf visits a hP middle (notes ++ visits.map Visit.call)
      refine ⟨visits ++ visits', ?_, hQ, ?_⟩
      · rw [List.map_append, ← List.append_assoc]
        exact hg
      · refine hcount'.trans ?_
        rw [hcount, List.countP_append, List.countP_append, Nat.add_assoc, Nat.add_assoc]

theorem whole {n : Node} {make : α → Option Node} (hx : Notes x y fun visits result =>
      VisitsRest n [] n.visitedChildren visits (result.map make)) :
    Notes x y fun visits result => Visits n visits (result.map make) := hx.imp fun _ _ h => h.whole

/-- A node is handed to its hook when nothing is left below it. -/
theorem apply {rw : Rewriter σ ε} {hook : Hook σ ε α} {label : String} {name : HookName}
    {make : α → Node} {n : Node} {outs : List (Option Node)} {a : α} (hhook : n.hook? = some name)
    (hhanded : n.Rebuilt outs (make a)) :
    Notes (rw.apply hook label a) (rw.recording.apply (hook.recording name make) label a)
      fun visits result => VisitsRest n outs [] visits (result.map (Option.map make)) := by
  intro before notes
  have hvisits {call : HookCall ε} (hname : call.hook = name) (hmake : call.handed = make a) :
      VisitsRest n outs [] [⟨n, call⟩] call.outcome :=
    .handed .nil (hname ▸ hhook) (by rwa [List.append_nil, hmake])
  unfold Rewriter.apply
  cases hanswer : hook a before.state with
  | mk result state log =>
    have hrecorded : hook.recording name make a (before.noting notes).state =
        ⟨result, (state, notes ++ [⟨name, make a, result.map (Verdict.map make)⟩]), log⟩ := by
      unfold Hook.recording Progress.noting
      rw [hanswer]
    rw [hrecorded]
    refine ⟨[⟨n, name, make a, result.map (Verdict.map make)⟩], ?_⟩
    cases result with
    | error reason => exact ⟨rfl, hvisits rfl rfl, rfl⟩
    | ok verdict => cases verdict <;> exact ⟨rfl, hvisits rfl rfl, rfl⟩

/-- The visits to a node are followed by those to what is left of the node above it. -/
theorem filled {place : Place} {x : Rewriting σ ε (Option Expr)}
    {y : Rewriting (σ × List (HookCall ε)) ε (Option Expr)} {f : Expr → Rewriting σ ε β}
    {g : Expr → Rewriting (σ × List (HookCall ε)) ε β} {e : Expr} {n : Node} {make : β → Option Node}
    {outs : List (Option Node)} {todo : List Child}
    (hx : Notes x y fun visits result => Visits (.expr e) visits (result.map (Option.map .expr)))
    (hf : ∀ new, Notes (f new) (g new) fun visits result =>
      VisitsRest n (outs ++ [some (.expr new)]) todo visits (result.map make)) :
    Notes (x >>= fun out => Rewriter.fill place out >>= f)
      (y >>= fun out => Rewriter.fill place out >>= g) fun visits result =>
      VisitsRest n outs (.filling place e :: todo) visits (result.map make) := by
  refine hx.bind (fun visits failure h => ?_) fun visits out h => ?_
  · have hone : VisitsAll [.filling place e] visits (.error failure) := .stopped h
    exact .of_error hone
  cases out with
  | none =>
    -- the expression was deleted, and the place stays empty
    refine throw ?_
    have hone : VisitsAll [.filling place e] visits (.error (.emptied place)) := .emptied h rfl
    rw [List.append_nil]
    exact .of_error hone
  | some new =>
    refine (hf new).imp fun _ _ hrest => ?_
    have hone : VisitsAll [.filling place e] (visits ++ []) (.ok [some (.expr new)]) :=
      .cons h (fun hnone => by cases hnone) .nil
    rw [List.append_nil] at hone
    exact .after hone hrest

/-- The visits to a sequence are followed by those to what is left of the node above it. -/
theorem sequence {x : Rewriting σ ε (List α)} {y : Rewriting (σ × List (HookCall ε)) ε (List α)}
    {f : List α → Rewriting σ ε β} {g : List α → Rewriting (σ × List (HookCall ε)) ε β}
    {make : α → Node} {as : List α} {n : Node} {makeAll : β → Option Node} {outs : List (Option Node)}
    {todo : List Child} (hx : Notes x y (VisitsSequence make as))
    (hf : ∀ new : List (Option α), new.length = as.length →
      Notes (f new.reduceOption) (g new.reduceOption) fun visits result =>
        VisitsRest n (outs ++ new.map (Option.map make)) todo visits (result.map makeAll)) :
    Notes (x >>= f) (y >>= g) fun visits result =>
      VisitsRest n outs (as.map (.inSequence ∘ make) ++ todo) visits (result.map makeAll) := by
  refine hx.bind (fun visits e h => .of_error h.of_error) fun visits new h => ?_
  obtain ⟨new, rfl, hvisits⟩ := h.exists_of_ok
  have hlength : new.length = as.length := by simpa using hvisits.length_eq
  exact (hf new hlength).imp fun _ _ hrest => .after hvisits hrest

/-- The last sequence of a node is followed by the visit to the node. -/
theorem lastSequence {x : Rewriting σ ε (List α)} {y : Rewriting (σ × List (HookCall ε)) ε (List α)}
    {f : List α → Rewriting σ ε β} {g : List α → Rewriting (σ × List (HookCall ε)) ε β}
    {make : α → Node} {as : List α} {n : Node} {makeAll : β → Option Node} {outs : List (Option Node)}
    (hx : Notes x y (VisitsSequence make as))
    (hf : ∀ new : List (Option α), new.length = as.length →
      Notes (f new.reduceOption) (g new.reduceOption) fun visits result =>
        VisitsRest n (outs ++ new.map (Option.map make)) [] visits (result.map makeAll)) :
    Notes (x >>= f) (y >>= g) fun visits result =>
      VisitsRest n outs (as.map (.inSequence ∘ make)) visits (result.map makeAll) := by
  have h := hx.sequence hf
  rwa [List.append_nil] at h

/-- The visits to the first node of a sequence are followed by those to the others. -/
theorem cons {x : Rewriting σ ε (Option α)} {y : Rewriting (σ × List (HookCall ε)) ε (Option α)}
    {xs : Rewriting σ ε (List α)} {ys : Rewriting (σ × List (HookCall ε)) ε (List α)}
    {make : α → Node} {a : α} {as : List α}
    (hx : Notes x y fun visits result => Visits (make a) visits (result.map (Option.map make)))
    (hxs : Notes xs ys (VisitsSequence make as)) :
    Notes (x >>= fun out => xs >>= fun new => Pure.pure (out.toList ++ new))
      (y >>= fun out => ys >>= fun new => Pure.pure (out.toList ++ new))
      (VisitsSequence make (a :: as)) :=
  hx.bind (fun _ _ h => .stopped h) fun _ _ h => hxs.bind (fun _ _ hrest => .stoppedLater h hrest)
    fun _ _ hrest => .pure (by rw [List.append_nil]; exact .cons h hrest)

end Rewriting.Notes

open Rewriting (Notes)

variable {rw : Rewriter σ ε}

/-- An expression is handed to its hook when nothing is left below it. -/
theorem notes_applyExpr {n : Node} {outs : List (Option Node)} {e : Expr}
    (hhook : n.hook? = (Node.expr e).hook?) (hhanded : n.Rebuilt outs (.expr e)) :
    Notes (rw.applyExpr e) (rw.recording.applyExpr e) fun visits result =>
      VisitsRest n outs [] visits (result.map (Option.map .expr)) := by
  cases e <;> exact .apply hhook hhanded

/-- A statement is handed to its hook when nothing is left below it. -/
theorem notes_applyStmt {n : Node} {outs : List (Option Node)} {s : Stmt}
    (hhook : n.hook? = (Node.stmt s).hook?) (hhanded : n.Rebuilt outs (.stmt s)) :
    Notes (rw.applyStmt s) (rw.recording.applyStmt s) fun visits result =>
      VisitsRest n outs [] visits (result.map (Option.map .stmt)) := by
  cases s <;> exact .apply hhook hhanded

mutual

theorem Expr.notes_rewrite : ∀ e : Expr, Notes (e.rewrite rw) (e.rewrite rw.recording)
    fun visits result => Visits (.expr e) visits (result.map (Option.map .expr))
  | .number .. | .text .. | .name .. => .whole (notes_applyExpr rfl (.leaf rfl))
  | .member _ receiver _ => .whole (receiver.notes_rewrite.filled fun _ =>
    notes_applyExpr rfl .member)
  | .call _ callee args keywords => .whole (callee.notes_rewrite.filled fun _ =>
    (notes_rewriteExprs args).sequence fun _ hargs =>
      (notes_rewriteKeywords keywords).lastSequence fun _ hkeywords =>
        notes_applyExpr rfl (.call hargs hkeywords))
  | .binary _ _ left right => .whole (left.notes_rewrite.filled fun _ =>
    right.notes_rewrite.filled fun _ => notes_applyExpr rfl .binary)
  | .negate _ operand => .whole (operand.notes_rewrite.filled fun _ =>
    notes_applyExpr rfl .negate)
  | .compare _ _ left right => .whole (left.notes_rewrite.filled fun _ =>
    right.notes_rewrite.filled fun _ => notes_applyExpr rfl .compare)

theorem notes_rewriteExprs : ∀ es : List Expr,
    Notes (rewriteExprs rw es) (rewriteExprs rw.recording es) (VisitsSequence .expr es)
  | [] => .pure .nil
  | e :: es => e.notes_rewrite.cons (notes_rewriteExprs es)

theorem notes_rewriteKeywords : ∀ ks : List Keyword,
    Notes (rewriteKeywords rw ks) (rewriteKeywords rw.recording ks) (VisitsSequence .keyword ks)
  | [] => .pure .nil
  | .mk span name value :: ks => by
    have hkeyword : Notes ((Keyword.mk span name value).rewrite rw)
        ((Keyword.mk span name value).rewrite rw.recording) fun visits result =>
        Visits (.keyword (.mk span name value)) visits (result.map (Option.map .keyword)) :=
      .whole (value.notes_rewrite.filled fun _ => .apply rfl .keyword)
    exact hkeyword.cons (notes_rewriteKeywords ks)

end

mutual

theorem Stmt.notes_rewrite : ∀ s : Stmt, Notes (s.rewrite rw) (s.rewrite rw.recording)
    fun visits result => Visits (.stmt s) visits (result.map (Option.map .stmt))
  | .define _ _ _ body => .whole ((notes_rewriteBlock body).lastSequence fun _ hbody =>
    notes_applyStmt rfl (.define hbody))
  | .give _ none | .pass _ => by
    simp only [Stmt.rewrite]
    exact .whole (notes_applyStmt rfl (.leaf rfl))
  | .give _ (some value) => .whole (value.notes_rewrite.filled fun _ => notes_applyStmt rfl .give)
  | .assign _ _ value => .whole (value.notes_rewrite.filled fun _ => notes_applyStmt rfl .assign)
  | .eval _ value => .whole (value.notes_rewrite.filled fun _ => notes_applyStmt rfl .eval)
  | .branch _ test body orelse => .whole (test.notes_rewrite.filled fun _ =>
    (notes_rewriteBlock body).sequence fun _ hbody =>
      (notes_rewriteBlock orelse).lastSequence fun _ horelse =>
        notes_applyStmt rfl (.branch hbody horelse))
  | .loop _ test body => .whole (test.notes_rewrite.filled fun _ =>
    (notes_rewriteBlock body).lastSequence fun _ hbody => notes_applyStmt rfl (.loop hbody))

theorem notes_rewriteBlock : ∀ block : List Stmt,
    Notes (rewriteBlock rw block) (rewriteBlock rw.recording block) (VisitsSequence .stmt block)
  | [] => .pure .nil
  | s :: ss => s.notes_rewrite.cons (notes_rewriteBlock ss)

end

theorem VisitsSequence.map_node {p : Program} {visits : List (Visit ε)}
    {result : Except (RewriteFailure ε) Program} (h : VisitsSequence .stmt p visits result) :
    visits.map Visit.node <+: p.visited ∧
      ∀ new, result = .ok new → visits.map Visit.node = p.visited := by
  obtain ⟨outs, rfl, hvisits⟩ := h
  obtain ⟨hstart, hall⟩ := hvisits.map_node
  rw [List.flatMap_map] at hstart hall
  rw [Program.visited, List.flatMap_map]
  refine ⟨hstart, fun new hnew => ?_⟩
  cases outs with
  | error => cases hnew
  | ok outs => exact hall _ rfl

/-- Rewriting a program stops because the hook that was called last gave up, or because it deleted an
expression from a place that cannot be empty. -/
theorem VisitsSequence.stops {p : Program} {visits : List (Visit ε)} {e : RewriteFailure ε}
    (h : VisitsSequence .stmt p visits (.error e)) :
    ∃ front last, visits = front ++ [last] ∧
      last.Stops (p.nodes.flatMap Node.visitedChildren) e := by
  set statements := p.map (Child.inSequence ∘ Node.stmt)
  set below := p.nodes.flatMap Node.visitedChildren with hbelow
  have hstatement : ∀ c ∈ statements, c.place? = none ∧ c.node.childrenBelow ⊆ below := by
    intro c hc
    obtain ⟨s, hs, rfl⟩ := List.mem_map.1 hc
    refine ⟨rfl, fun d hd => ?_⟩
    obtain ⟨m, hm, hd⟩ := List.mem_flatMap.1 hd
    refine List.mem_flatMap_of_mem ?_ hd
    rw [Program.nodes, nodesIn_eq_flatMap]
    exact List.mem_flatMap_of_mem (List.mem_map_of_mem hs) hm
  obtain ⟨front, last, hvisits, hlast⟩ := h.of_error.stops
    (List.subset_append_left statements below)
    (fun c hc => List.Subset.trans (hstatement c hc).2 (List.subset_append_right _ _)) e rfl
  refine ⟨front, last, hvisits, ?_⟩
  cases hlast with
  | gaveUp hresult => exact .gaveUp hresult
  | emptied hresult hplace =>
    refine .emptied hresult ((List.mem_append.1 hplace).resolve_left fun hmem => ?_)
    cases (hstatement _ hmem).1

theorem Program.notes_rewrite (p : Program) (rw : Rewriter σ ε) (state : σ) : ∃ visits : List (Visit ε),
    p.rewrite rw.recording (state, []) =
      ((p.rewrite rw state).1, (p.rewrite rw state).2.noting (visits.map Visit.call)) ∧
    VisitsSequence .stmt p visits (p.rewrite rw state).1 ∧
    (p.rewrite rw state).2.count =
      ⟨visits.countP Visit.replaces, visits.countP Visit.deletes⟩ := by
  have hblock : Notes (rewriteBlock rw p) (rewriteBlock rw.recording p) (VisitsSequence .stmt p) :=
    notes_rewriteBlock p
  obtain ⟨visits, hrecorded, hvisits, hcount⟩ := hblock { state } []
  refine ⟨visits, ?_⟩
  unfold Program.rewrite
  cases hrun : (rewriteBlock rw p).run.run { state } with
  | mk result progress =>
    have hrun' : rewriteBlock rw p { state } = (result, progress) := hrun
    rw [hrun'] at hrecorded hvisits hcount
    have hrecorded' : (rewriteBlock rw.recording p).run.run { state := (state, []) } =
        (result, progress.noting (visits.map Visit.call)) := hrecorded
    rw [hrecorded']
    rw [Nat.zero_add, Nat.zero_add] at hcount
    cases result with
    | error => exact ⟨rfl, hvisits, hcount⟩
    | ok => exact ⟨rfl, hvisits, hcount⟩

/-- What a rewriter does to a program, whatever its hooks answer. Every statement, expression and keyword
argument is handed to its hook once, after all that is below it, as `Visits` says; replacements and
deletions are counted. Where rewriting fails, the nodes visited so far are the first in this order, and
the hook that was called last is to blame. -/
theorem Program.rewrite_visits (p : Program) (rw : Rewriter σ Error) (state : σ) :
    p.visited.Perm (p.nodes.filter Node.isVisited) ∧
    ∃ visits : List (Visit Error),
      p.rewrite rw.recording (state, []) =
        ((p.rewrite rw state).1, (p.rewrite rw state).2.noting (visits.map Visit.call)) ∧
      VisitsSequence .stmt p visits (p.rewrite rw state).1 ∧
      (∀ new, (p.rewrite rw state).1 = .ok new → visits.map Visit.node = p.visited ∧
        (p.rewrite rw state).2.count =
          ⟨visits.countP Visit.replaces, visits.countP Visit.deletes⟩) ∧
      ∀ e, (p.rewrite rw state).1 = .error e → visits.map Visit.node <+: p.visited ∧
        ∃ front last, visits = front ++ [last] ∧
          (last.call.result = .error (.ofRewrite rw.name e) ∨
            ∃ place value, ∃ parent ∈ p.nodes, last.node = .expr value ∧
              Child.filling place value ∈ parent.visitedChildren ∧
              last.call.result = .ok .delete ∧
              Error.ofRewrite rw.name e =
                .invariant rw.name s!"the {place.label} cannot be deleted") := by
  obtain ⟨visits, hrecorded, hvisits, hcount⟩ := p.notes_rewrite rw state
  obtain ⟨hstart, hall⟩ := hvisits.map_node
  refine ⟨p.visited_perm, visits, hrecorded, hvisits, fun new hnew => ⟨hall new hnew, hcount⟩,
    fun e he => ⟨hstart, ?_⟩⟩
  rw [he] at hvisits
  obtain ⟨front, last, hlast, hstops⟩ := hvisits.stops
  refine ⟨front, last, hlast, ?_⟩
  cases hstops with
  | gaveUp hresult => exact .inl hresult
  | emptied hresult hplace =>
    obtain ⟨parent, hparent, hchild⟩ := List.mem_flatMap.1 hplace
    obtain ⟨value, hvalue, hfilling⟩ := Node.exists_filling_of_mem_visitedChildren hchild
    exact .inr ⟨_, value, parent, hparent, hvalue, hfilling, hresult, rfl⟩

/-- A rewriter that deletes numbers. -/
def Rewriter.dropNumbers : Rewriter Unit Error where
  name := "drop-numbers"
  expr := fun e state => { result := .ok (if e.kind = .number then .delete else .keep e), state }

/-- The number in `f(1)` is visited like the other nodes, and deleted. -/
theorem Program.rewrite_visits_dropNumbers : ∃ visits : List (Visit Error),
    visits.map Visit.node = Program.visited [.eval none (.call none (.name none "f") [.number none 1] [])] ∧
    visits.countP Visit.replaces = 0 ∧ visits.countP Visit.deletes = 1 := by
  obtain ⟨-, visits, -, -, hok, -⟩ := Program.rewrite_visits
    [.eval none (.call none (.name none "f") [.number none 1] [])] Rewriter.dropNumbers ()
  obtain ⟨hnodes, hcount⟩ := hok [.eval none (.call none (.name none "f") [] [])] rfl
  exact ⟨visits, hnodes, (congrArg RewriteCount.replaced hcount).symm,
    (congrArg RewriteCount.deleted hcount).symm⟩

end Stampline
