import Stampline.Proofs.Stamp.Rewritten
import Stampline.Proofs.Syntax.Nested

/-!
# Locating a stamped program

When a program that was read is stamped, the nodes without a place are the stamped calls, their stamps,
and the statements that give the last value of a function. Locating counts them. Each of them takes the
place of a node above it, so that nodes go on to stand within those above them.
-/

namespace Stampline

/-! ## Nodes within others -/

/-- A node stands within `outer`, and every node below it within the one above. -/
inductive Lies : Span → Node → Prop where
  | mk {outer n s} (hspan : n.span = some s) (hwithin : s.Within outer)
      (hbelow : ∀ m ∈ n.children, Lies s m) : Lies outer n

namespace Lies

variable {s t outer : Span} {n : Node}

theorem mono (hst : s.Within t) : Lies s n → Lies t n
  | .mk hspan hwithin hbelow => .mk hspan (hwithin.trans hst) hbelow

/-- Where a node lies within a span, all nodes below it are nested. -/
theorem nested (h : Lies outer n) : ∀ m ∈ n.nodes, m.Nested := by
  induction h with
  | @mk _ n s hspan _ hbelow ih =>
    simp only [n.nodes_eq, List.forall_mem_cons, List.mem_flatMap, forall_exists_index, and_imp]
    refine ⟨⟨by rw [hspan]; rfl, fun m hm => ?_⟩, fun m c hc hm => ih c hc m hm⟩
    obtain ⟨ht, hwithin, -⟩ := hbelow m hm
    exact ⟨_, s, ht, hspan, hwithin⟩

/-- Nodes in line lie between the two positions. -/
theorem of_inLine {lo hi : Position} {ns : List Node} (h : InLine lo ns hi) :
    ∀ {outer : Span}, outer.first ≤ lo → hi ≤ outer.final → ∀ n ∈ ns, Lies outer n := by
  induction h with
  | nil => exact fun _ _ => nofun
  | cons hspan hlo hs _ hrest ihbelow ihrest =>
    intro outer hfirst hfinal
    refine List.forall_mem_cons.2 ⟨.mk hspan ⟨hfirst.trans hlo, hrest.le.trans hfinal⟩
      (ihbelow (le_refl _) (le_refl _)), ihrest (hfirst.trans (hlo.trans hs)) hfinal⟩

end Lies

/-- The statements of a program that was read lie within a stretch of text. -/
theorem Program.lies_of_parse {source : String} {p : Program} (h : Program.parse source = .ok p) :
    ∃ outer, ∀ s ∈ p, Lies outer (.stmt s) := by
  obtain ⟨hi, hline⟩ := Program.inLine_of_parse h
  have hlies : ∀ n ∈ p.map Node.stmt, Lies ⟨1, 0, (ofLex hi).1, (ofLex hi).2⟩ n :=
    Lies.of_inLine hline (le_refl _) (le_refl _)
  exact ⟨_, fun s hs => hlies _ (List.mem_map_of_mem hs)⟩

/-! ## Counting nodes that are located -/

/-- Locating gives places to `made` nodes, and its result has the property `P`. -/
def Locates {α : Type} (x : StateM Nat α) (made : Nat) (P : α → Prop) : Prop :=
  ∀ count, (x count).2 = count + made ∧ P (x count).1

namespace Locates

variable {α β : Type} {x : StateM Nat α} {f : α → StateM Nat β} {g : Span → StateM Nat β}
  {P : α → Prop} {Q : β → Prop} {k k' n : Nat} {outer : Span}

theorem pure {a : α} (h : P a) : Locates (Pure.pure a) 0 P := fun _ => ⟨rfl, h⟩

theorem bind (hx : Locates x k P) (hf : ∀ a, P a → Locates (f a) k' Q) (hk : k + k' = n) :
    Locates (x >>= f) n Q := by
  intro count
  obtain ⟨hcount, ha⟩ := hx count
  obtain ⟨hcount', hb⟩ := hf _ ha (x count).2
  exact ⟨by rw [← hk, ← Nat.add_assoc, ← hcount]; exact hcount', hb⟩

/-- A node that stands somewhere stays there. -/
theorem stays {span : Option Span} {s : Span} (hspan : span = some s) (h : Locates (g s) n Q) :
    Locates (settle outer span >>= g) n Q := by
  subst hspan
  exact h

/-- A node that stands nowhere goes where the node above it stands. -/
theorem moves (h : Locates (g outer) k Q) (hk : 1 + k = n) :
    Locates (settle outer none >>= g) n Q := by
  intro count
  obtain ⟨hcount, hb⟩ := h (count + 1)
  exact ⟨by rw [← hk, ← Nat.add_assoc]; exact hcount, hb⟩

end Locates

section Located

variable {target : String}

mutual

theorem Stamps.locate {texts : List String} {e e' : Expr} {outer : Span} :
    Stamps target (· = none) texts e e' → Lies outer (.expr e) →
    Locates (e'.locate outer) (2 * texts.length) fun new =>
      Stamps target (fun _ => True) texts e new ∧ Lies outer (.expr new)
  | .number, .mk hspan hwithin _ => .stays hspan (.pure ⟨hspan ▸ .number, .mk rfl hwithin nofun⟩)
  | .text, .mk hspan hwithin _ => .stays hspan (.pure ⟨hspan ▸ .text, .mk rfl hwithin nofun⟩)
  | .name, .mk hspan hwithin _ => .stays hspan (.pure ⟨hspan ▸ .name, .mk rfl hwithin nofun⟩)
  | .member h, .mk hspan hwithin hbelow => by
    obtain rfl := hspan
    simp only [Node.children, List.forall_mem_singleton] at hbelow
    refine .stays rfl ((h.locate hbelow).bind (fun new hnew => .pure ⟨.member hnew.1, ?_⟩) rfl)
    exact .mk rfl hwithin (by simpa [Node.children] using hnew.2)
  | .call hcallee hargs hkeywords hother, .mk hspan hwithin hbelow => by
    obtain rfl := hspan
    simp only [Node.children, List.forall_mem_cons, List.forall_mem_append] at hbelow
    obtain ⟨hbelow, hbelow', hbelow''⟩ := hbelow
    refine .stays rfl ((hcallee.locate hbelow).bind (fun new hnew => (hargs.locate hbelow').bind
      (fun new' hnew' => (hkeywords.locate hbelow'').bind (fun new'' hnew'' =>
        .pure ⟨.call hnew.1 hnew'.1 hnew''.1 hother, ?_⟩) rfl) rfl) (by simp; omega))
    refine .mk rfl hwithin ?_
    simp only [Node.children, List.forall_mem_cons, List.forall_mem_append]
    exact ⟨hnew.2, hnew'.2, hnew''.2⟩
  | @Stamps.stamped _ _ _ span' here here' stamp _ es' _ _ texts _ hargs hkeywords hspan' hhere,
      .mk hspan hwithin hbelow => by
    -- the parts of the call go on to lie within what the call itself lay within
    obtain rfl := hspan
    obtain rfl : span' = none := hspan'
    obtain rfl : here' = none := hhere
    simp only [Node.children, List.forall_mem_cons, List.forall_mem_append] at hbelow
    obtain ⟨hcallee, hbelow, hbelow'⟩ := hbelow
    obtain ⟨hplace, hplaced, -⟩ := hcallee
    have hname : Locates ((Expr.name here target).locate outer) 0 (· = .name here target) :=
      .stays hplace (.pure (by rw [show here = _ from hplace]))
    have hstamp : Locates ((Expr.text none stamp).locate outer) 1 (· = .text outer stamp) :=
      .moves (.pure rfl) rfl
    have hstamped : Locates (locateExprs outer (.text none stamp :: es')) (1 + 2 * texts.length)
        fun new => ∃ rest, new = .text outer stamp :: rest ∧
          StampsArgs target (fun _ => True) texts _ rest ∧ ∀ n ∈ rest.map Node.expr, Lies outer n :=
      hstamp.bind (fun new hnew => (hargs.locate fun n hn => (hbelow n hn).mono hwithin).bind
        (fun rest hrest => .pure ⟨rest, by rw [hnew], hrest⟩) rfl) rfl
    refine .moves (hname.bind (fun new hnew => hstamped.bind (fun new' hnew' =>
      (hkeywords.locate fun n hn => (hbelow' n hn).mono hwithin).bind (fun new'' hnew'' =>
        .pure ?_) rfl) rfl) rfl) (by simp; omega)
    obtain ⟨rest, rfl, hrest, hlies⟩ := hnew'
    subst hnew
    refine ⟨.stamped hrest hnew''.1 trivial trivial, .mk rfl (.refl outer) ?_⟩
    simp only [Node.children, List.map_cons, List.cons_append, List.forall_mem_cons,
      List.forall_mem_append]
    exact ⟨.mk hplace (hplaced.trans hwithin) nofun, .mk rfl (.refl outer) nofun, hlies, hnew''.2⟩
  | .binary hleft hright, .mk hspan hwithin hbelow => by
    obtain rfl := hspan
    simp only [Node.children, List.forall_mem_cons, List.not_mem_nil] at hbelow
    refine .stays rfl ((hleft.locate hbelow.1).bind (fun new hnew =>
      (hright.locate hbelow.2.1).bind (fun new' hnew' => .pure ⟨.binary hnew.1 hnew'.1, ?_⟩) rfl)
        (by simp; omega))
    exact .mk rfl hwithin (by simpa [Node.children] using ⟨hnew.2, hnew'.2⟩)
  | .negate h, .mk hspan hwithin hbelow => by
    obtain rfl := hspan
    simp only [Node.children, List.forall_mem_singleton] at hbelow
    refine .stays rfl ((h.locate hbelow).bind (fun new hnew => .pure ⟨.negate hnew.1, ?_⟩) rfl)
    exact .mk rfl hwithin (by simpa [Node.children] using hnew.2)
  | .compare hleft hright, .mk hspan hwithin hbelow => by
    obtain rfl := hspan
    simp only [Node.children, List.forall_mem_cons, List.not_mem_nil] at hbelow
    refine .stays rfl ((hleft.locate hbelow.1).bind (fun new hnew =>
      (hright.locate hbelow.2.1).bind (fun new' hnew' => .pure ⟨.compare hnew.1 hnew'.1, ?_⟩) rfl)
        (by simp; omega))
    exact .mk rfl hwithin (by simpa [Node.children] using ⟨hnew.2, hnew'.2⟩)

theorem StampsArgs.locate {texts : List String} {es es' : List Expr} {outer : Span} :
    StampsArgs target (· = none) texts es es' → (∀ n ∈ es.map Node.expr, Lies outer n) →
    Locates (locateExprs outer es') (2 * texts.length) fun new =>
      StampsArgs target (fun _ => True) texts es new ∧ ∀ n ∈ new.map Node.expr, Lies outer n
  | .nil, _ => .pure ⟨.nil, nofun⟩
  | .cons h hrest, hlies => by
    rw [List.map_cons, List.forall_mem_cons] at hlies
    refine (h.locate hlies.1).bind (fun new hnew => (hrest.locate hlies.2).bind (fun new' hnew' =>
      .pure ⟨.cons hnew.1 hnew'.1, ?_⟩) rfl) (by simp; omega)
    rw [List.map_cons, List.forall_mem_cons]
    exact ⟨hnew.2, hnew'.2⟩

theorem StampsKeywords.locate {texts : List String} {ks ks' : List Keyword} {outer : Span} :
    StampsKeywords target (· = none) texts ks ks' → (∀ n ∈ ks.map Node.keyword, Lies outer n) →
    Locates (locateKeywords outer ks') (2 * texts.length) fun new =>
      StampsKeywords target (fun _ => True) texts ks new ∧ ∀ n ∈ new.map Node.keyword, Lies outer n
  | .nil, _ => .pure ⟨.nil, nofun⟩
  | @StampsKeywords.cons _ _ span name e e' _ _ texts _ h hrest, hlies => by
    rw [List.map_cons, List.forall_mem_cons] at hlies
    obtain ⟨⟨hspan, hwithin, hbelow⟩, hlies⟩ := hlies
    simp only [Node.children, List.forall_mem_singleton] at hbelow
    have hkeyword : Locates ((Keyword.mk span name e').locate outer) (2 * texts.length) fun new =>
        ∃ value, new = .mk span name value ∧ Stamps target (fun _ => True) texts e value ∧
          Lies outer (.keyword new) :=
      .stays hspan ((h.locate hbelow).bind (fun value hvalue => .pure
        ⟨value, by rw [show span = _ from hspan], hvalue.1,
          .mk rfl hwithin (by simpa [Node.children] using hvalue.2)⟩) rfl)
    refine hkeyword.bind (fun new hnew => (hrest.locate hlies).bind (fun new' hnew' =>
      .pure ?_) rfl) (by simp; omega)
    obtain ⟨value, rfl, hvalue, hlie⟩ := hnew
    rw [List.map_cons, List.forall_mem_cons]
    exact ⟨.cons hvalue hnew'.1, hlie, hnew'.2⟩

end

theorem locates_params {outer : Span} : ∀ {params : List Param},
    (∀ n ∈ params.map Node.param, Lies outer n) → Locates (locateParams outer params) 0 (· = params)
  | [], _ => .pure rfl
  | p :: ps, hlies => by
    rw [List.map_cons, List.forall_mem_cons] at hlies
    obtain ⟨⟨hspan, -, -⟩, hlies⟩ := hlies
    exact .stays hspan ((locates_params hlies).bind (fun new hnew => .pure (by
      rw [hnew, ← show p.span = _ from hspan])) rfl)

mutual

theorem StampsStmt.locate {texts : List String} {s s' : Stmt} {outer : Span} :
    StampsStmt target (· = none) texts s s' → Lies outer (.stmt s) → ∀ above : Span,
    Locates (s'.locate above) (2 * texts.length + endings s.nodes) fun new =>
      StampsStmt target (fun _ => True) texts s new ∧ Lies outer (.stmt new)
  | @StampsStmt.define _ _ _ _ params block _ _ h, .mk hspan hwithin hbelow, _ => by
    obtain rfl := hspan
    simp only [Node.children, List.forall_mem_append] at hbelow
    refine .stays rfl ((locates_params hbelow.1).bind (fun new hnew =>
      (h.locate hbelow.2 _ fun _ => rfl).bind (fun new' hnew' => .pure ⟨hnew ▸ .define hnew'.1, ?_⟩) rfl) ?_)
    · refine .mk rfl hwithin ?_
      simp only [Node.children, List.forall_mem_append]
      exact ⟨hnew ▸ hbelow.1, hnew'.2⟩
    · cases hends : endsInExpr block <;> simp [Stmt.nodes, Node.endsInExpr, hends, Nat.add_assoc]
  | .giveZero, .mk hspan hwithin _, _ =>
    .stays hspan (.pure ⟨hspan ▸ .giveZero, .mk rfl hwithin nofun⟩)
  | .pass, .mk hspan hwithin _, _ => .stays hspan (.pure ⟨hspan ▸ .pass, .mk rfl hwithin nofun⟩)
  | .give h, .mk hspan hwithin hbelow, _ => by
    obtain rfl := hspan
    simp only [Node.children, List.forall_mem_singleton] at hbelow
    refine .stays rfl ((h.locate hbelow).bind (fun new hnew => .pure ⟨.give hnew.1, ?_⟩) ?_)
    · exact .mk rfl hwithin (by simpa [Node.children] using hnew.2)
    · simp [Stmt.nodes, Node.endsInExpr, Expr.endings_nodes]
  | .assign h, .mk hspan hwithin hbelow, _ => by
    obtain rfl := hspan
    simp only [Node.children, List.forall_mem_singleton] at hbelow
    refine .stays rfl ((h.locate hbelow).bind (fun new hnew => .pure ⟨.assign hnew.1, ?_⟩) ?_)
    · exact .mk rfl hwithin (by simpa [Node.children] using hnew.2)
    · simp [Stmt.nodes, Node.endsInExpr, Expr.endings_nodes]
  | .eval h, .mk hspan hwithin hbelow, _ => by
    obtain rfl := hspan
    simp only [Node.children, List.forall_mem_singleton] at hbelow
    refine .stays rfl ((h.locate hbelow).bind (fun new hnew => .pure ⟨.eval hnew.1, ?_⟩) ?_)
    · exact .mk rfl hwithin (by simpa [Node.children] using hnew.2)
    · simp [Stmt.nodes, Node.endsInExpr, Expr.endings_nodes]
  | .branch h hbody horelse, .mk hspan hwithin hbelow, _ => by
    obtain rfl := hspan
    simp only [Node.children, List.forall_mem_cons, List.forall_mem_append] at hbelow
    refine .stays rfl ((h.locate hbelow.1).bind (fun new hnew =>
      (hbody.locate hbelow.2.1 _ nofun).bind (fun new' hnew' => (horelse.locate hbelow.2.2 _ nofun).bind
        (fun new'' hnew'' => .pure ⟨.branch hnew.1 hnew'.1 hnew''.1, ?_⟩) rfl) rfl) ?_)
    · refine .mk rfl hwithin ?_
      simp only [Node.children, List.forall_mem_cons, List.forall_mem_append]
      exact ⟨hnew.2, hnew'.2, hnew''.2⟩
    · simp [Stmt.nodes, Node.endsInExpr, Expr.endings_nodes]
      omega
  | .loop h hbody, .mk hspan hwithin hbelow, _ => by
    obtain rfl := hspan
    simp only [Node.children, List.forall_mem_cons] at hbelow
    refine .stays rfl ((h.locate hbelow.1).bind (fun new hnew =>
      (hbody.locate hbelow.2 _ nofun).bind (fun new' hnew' => .pure ⟨.loop hnew.1 hnew'.1, ?_⟩) rfl) ?_)
    · refine .mk rfl hwithin ?_
      simp only [Node.children, List.forall_mem_cons]
      exact ⟨hnew.2, hnew'.2⟩
    · simp [Stmt.nodes, Node.endsInExpr, Expr.endings_nodes]
      omega

theorem StampsBlock.locate {giving : Bool} {texts : List String} {ss ss' : List Stmt} {outer : Span} :
    StampsBlock target (· = none) giving texts ss ss' → (∀ n ∈ ss.map Node.stmt, Lies outer n) →
    ∀ above : Span, (giving = true → above = outer) → Locates (locateBlock above ss')
      (2 * texts.length + endings (nodesIn ss) + if giving && endsInExpr ss then 1 else 0) fun new =>
      StampsBlock target (fun _ => True) giving texts ss new ∧
        ∀ n ∈ new.map Node.stmt, Lies outer n
  | @StampsBlock.nil _ _ giving, _, _, _ => by
    rw [show (giving && endsInExpr []) = false from Bool.and_false giving]
    exact .pure ⟨.nil, nofun⟩
  | @StampsBlock.last _ _ span here e e' texts h hhere, hlies, above, habove => by
    obtain rfl := habove rfl
    obtain rfl : here = none := hhere
    obtain ⟨hspan, hwithin, hbelow⟩ := List.forall_mem_singleton.1 hlies
    simp only [Node.children, List.forall_mem_singleton] at hbelow
    have hgive : Locates ((Stmt.give none (some e')).locate above) (1 + 2 * texts.length) fun new =>
        ∃ value, new = .give above (some value) ∧ Stamps target (fun _ => True) texts e value ∧
          Lies above (.expr value) :=
      .moves ((h.locate (hbelow.mono hwithin)).bind (fun value hvalue =>
        .pure ⟨value, rfl, hvalue⟩) rfl) rfl
    have hnil : Locates (locateBlock above []) 0 (· = []) := .pure rfl
    refine hgive.bind (fun new hnew => hnil.bind (fun _ hnil => .pure ?_) rfl) ?_
    · subst hnil
      obtain ⟨value, rfl, hvalue, hlie⟩ := hnew
      refine ⟨.last hvalue trivial, ?_⟩
      rw [List.map_singleton, List.forall_mem_singleton]
      exact .mk rfl (.refl above) (by simpa [Node.children] using hlie)
    · simp [nodesIn, Stmt.nodes, Node.endsInExpr, Expr.endings_nodes, endsInExpr]
      omega
  | @StampsBlock.cons _ _ giving s _ ss _ _ _ h hrest hlast, hlies, above, habove => by
    rw [List.map_cons, List.forall_mem_cons] at hlies
    refine (h.locate hlies.1 above).bind (fun new hnew => (hrest.locate hlies.2 above habove).bind
      (fun new' hnew' => .pure ⟨.cons hnew.1 hnew'.1 hlast, ?_⟩) rfl) ?_
    · rw [List.map_cons, List.forall_mem_cons]
      exact ⟨hnew.2, hnew'.2⟩
    · have hends : (giving && endsInExpr (s :: ss)) = (giving && endsInExpr ss) := by
        cases giving with
        | false => rfl
        | true => exact endsInExpr_cons (hlast rfl)
      rw [hends]
      simp [nodesIn]
      omega

end

/-! ## Programs -/

/-- A program that was read, stamped and located is the stamped program with a place for every node
that stamping made, and its nodes lie where those of the program did. -/
theorem Program.locate_stamped {p new : Program} {texts : List String} {outer : Span}
    (h : StampsBlock target (· = none) false texts p new) (hlies : ∀ s ∈ p, Lies outer (.stmt s)) :
    StampsBlock target (fun _ => True) false texts p new.locate.1 ∧
      new.locate.2 = 2 * callsTo target p.nodes + endings p.nodes ∧
        ∀ n ∈ new.locate.1.nodes, n.Nested := by
  obtain ⟨hcount, hstamps, hlocated⟩ := h.locate (List.forall_mem_map.2 hlies) .root nofun 0
  refine ⟨hstamps, ?_, ?_⟩
  · rw [Program.nodes, ← h.length_eq, ← Nat.zero_add (2 * _ + _)]
    exact hcount
  · rw [Program.nodes, nodesIn_eq_flatMap]
    simp only [List.mem_flatMap, forall_exists_index, and_imp]
    exact fun n m hm hn => (hlocated m hm).nested n hn

/-- A statement that stands somewhere is located in the same way wherever it comes from. -/
theorem Stmt.locate_of_span {s : Stmt} {here : Span} (h : s.span = some here) (above above' : Span) :
    s.locate above = s.locate above' := by
  cases s with
  | give span value =>
    obtain rfl : span = some here := h
    cases value <;> rfl
  | _ => cases h; rfl

/-- A statement stands where it stood when it is stamped. -/
theorem StampsStmt.span_eq {place : Option Span → Prop} {texts : List String} {s s' : Stmt}
    (h : StampsStmt target place texts s s') : s'.span = s.span := by
  cases h <;> rfl

/-- No node of a program that was read and stamped is without a located node above it. -/
theorem StampsBlock.locate_eq {place : Option Span → Prop} {texts : List String} {ss ss' : List Stmt}
    (h : StampsBlock target place false texts ss ss') {outer : Span}
    (hlies : ∀ s ∈ ss, Lies outer (.stmt s)) (above above' : Span) :
    locateBlock above ss' = locateBlock above' ss' := by
  induction ss generalizing ss' texts with
  | nil =>
    cases h
    rfl
  | cons s ss ih =>
    obtain _ | _ | ⟨hs, hrest, -⟩ := h
    rw [List.forall_mem_cons] at hlies
    obtain ⟨⟨hspan, -, -⟩, hlies⟩ := hlies
    rw [locateBlock, locateBlock, Stmt.locate_of_span (hs.span_eq.trans hspan) above above',
      ih hrest hlies]

end Located

end Stampline
