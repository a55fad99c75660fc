import Mathlib.Data.Option.Defs
import Stampline.Evaluation.Program
import Stampline.Proofs.Stamp.Functions

/-!
# Stamping and meaning

A stamped program does what the program does, and prints a stamp in front of the items of every call
of the printing function. This holds where no function has the name of the printing function and no
function ends in an expression: the first would be called with one argument too many, and the second
gives a value that it did not give before.
-/

namespace Stampline

/-! ## Stamped printouts -/

/-- A printout with a stamp in front of its items. -/
def Printout.stamped (stamp : String) (p : Printout) : Printout :=
  { p with items := .text stamp :: p.items }

/-- A stamp is separated from the items behind it, if there are any. -/
theorem Printout.print_stamped (stamp : String) (p : Printout) : (p.stamped stamp).print =
    (if p.items = [] then stamp else stamp ++ p.separator) ++ p.print := by
  obtain ⟨items, separator, terminator⟩ := p
  cases items with
  | nil => simp [Printout.stamped, Printout.print, Item.print]
  | cons item items =>
    simp [Printout.stamped, Printout.print, Item.print, String.intercalate_cons_cons,
      String.append_assoc]

/-- A store in which every printout is stamped. -/
def Store.stamped (stamp : String) (σ : Store) : Store :=
  { σ with printed := σ.printed.map (·.stamped stamp) }

theorem Store.print_stamped (stamp : String) (σ : Store) : (σ.stamped stamp).print =
    String.join (σ.printed.map fun p =>
      (if p.items = [] then stamp else stamp ++ p.separator) ++ p.print) := by
  rw [Store.print, Store.stamped, List.map_map]
  exact congrArg String.join (List.map_congr_left fun p _ => p.print_stamped stamp)

/-- A result in which every printout is stamped. -/
def Result.stamped {α : Type} (stamp : String) : Result α → Result α
  | .done v σ => .done v (σ.stamped stamp)
  | .fault f σ => .fault f (σ.stamped stamp)
  | .stuck => .stuck
  | .unfinished => .unfinished

/-! ## Stamped evaluations -/

/-- The second evaluation does what the first does, and stamps every printout. -/
def Eval.Stamped {α : Type} (stamp : String) (x y : Eval α) : Prop :=
  ∀ σ, y (σ.stamped stamp) = (x σ).stamped stamp

namespace Eval.Stamped

variable {α β : Type} {stamp : String} {x y : Eval α}

theorem pure (v : α) : Eval.Stamped stamp (Pure.pure v) (Pure.pure v) := fun _ => rfl

theorem bind {f g : α → Eval β} (h : Eval.Stamped stamp x y)
    (hfg : ∀ v, Eval.Stamped stamp (f v) (g v)) : Eval.Stamped stamp (x >>= f) (y >>= g) := by
  intro σ
  rw [Eval.bind_apply, Eval.bind_apply, h σ]
  cases x σ with
  | done v τ => exact hfg v τ
  | _ => rfl

theorem stuck : Eval.Stamped (α := α) stamp .stuck .stuck := fun _ => rfl

theorem unfinished : Eval.Stamped (α := α) stamp .unfinished .unfinished := fun _ => rfl

theorem fault (f : Fault) : Eval.Stamped (α := α) stamp (.fault f) (.fault f) := fun _ => rfl

theorem enter {limits : Limits} (live : List Activation) (h : Eval.Stamped stamp x y) :
    Eval.Stamped stamp (limits.enter live x) (limits.enter live y) := by
  cases hlive : limits live with
  | some f =>
    rw [Limits.enter_of_refused hlive, Limits.enter_of_refused hlive]
    exact .fault f
  | none =>
    rw [Limits.enter_of_free hlive, Limits.enter_of_free hlive]
    exact h

theorem ofExcept (r : Except Fault α) : Eval.Stamped stamp (.ofExcept r) (.ofExcept r) := by
  cases r <;> exact fun _ => rfl

theorem readGlobal (id : String) : Eval.Stamped stamp (.readGlobal id) (.readGlobal id) := by
  intro σ
  unfold Eval.readGlobal
  cases hv : σ.globals.get? id <;> simp [Store.stamped, Result.stamped, hv]

theorem writeGlobal (id : String) (v : Int64) :
    Eval.Stamped stamp (.writeGlobal id v) (.writeGlobal id v) := fun _ => rfl

theorem mapM {ι κ : Type} {R : ι → κ → Prop} {f : ι → Eval α} {g : κ → Eval α} {is : List ι}
    {ks : List κ} (h : is.Forall₂ R ks) (hfg : ∀ i k, R i k → Eval.Stamped stamp (f i) (g k)) :
    Eval.Stamped stamp (is.mapM f) (ks.mapM g) := by
  induction h with
  | nil => exact .pure []
  | cons hik _ ih =>
    rw [List.mapM_cons, List.mapM_cons]
    exact (hfg _ _ hik).bind fun v => ih.bind fun vs => .pure (v :: vs)

theorem print (p : Printout) : Eval.Stamped stamp (.print p) (.print (p.stamped stamp)) := by
  intro σ
  simp [Eval.print, Store.stamped, Result.stamped]

end Eval.Stamped

/-! ## Stamped blocks -/

section Blocks

variable {target : String} {place : Option Span → Prop}

/-- A body that does not end in an expression is stamped as any block is. -/
theorem StampsBlock.of_giving {texts : List String} {ss ss' : List Stmt}
    (hends : endsInExpr ss = false) :
    StampsBlock target place true texts ss ss' → StampsBlock target place false texts ss ss'
  | .nil => .nil
  | .last _ _ => nomatch hends
  | .cons h hrest hlast =>
    .cons h (hrest.of_giving (endsInExpr_cons (hlast rfl) ▸ hends)) nofun

end Blocks

variable {place : Option Span → Prop} {stamp : String}

/-- `block'` is the block `block` with its calls of the printing function stamped. No function in it
has the name of the printing function, and none ends in an expression. -/
structure StampedBlock (place : Option Span → Prop) (stamp : String) (block block' : List Stmt) :
    Prop where
  stamps : ∃ texts ⊆ [stamp], StampsBlock printName place false texts block block'
  print : ∀ n ∈ nodesIn block, n.defines printName = false
  ending : ∀ n ∈ nodesIn block, n.endsInExpr = false

/-- What is known of the blocks around a place in a program and around that place in the stamped
program. -/
abbrev StampedAround (place : Option Span → Prop) (stamp : String) :
    List (List Stmt) → List (List Stmt) → Prop :=
  List.Forall₂ (StampedBlock place stamp)

theorem StampedBlock.tail {s s' : Stmt} {ss ss' : List Stmt}
    (h : StampedBlock place stamp (s :: ss) (s' :: ss')) : StampedBlock place stamp ss ss' := by
  obtain ⟨⟨_, htexts, hstamps⟩, hprint, hending⟩ := h
  rw [nodesIn, List.forall_mem_append] at hprint hending
  cases hstamps with
  | cons _ hrest _ =>
    exact ⟨⟨_, (List.append_subset.1 htexts).2, hrest⟩, hprint.2, hending.2⟩

/-- The body of a function of a stamped block. -/
theorem StampedBlock.body {span span' : Option Span} {name name' : String}
    {params params' : List Param} {body body' ss ss' : List Stmt}
    (h : StampedBlock place stamp (.define span name params body :: ss)
      (.define span' name' params' body' :: ss')) :
    name ≠ printName ∧ name' = name ∧ params' = params ∧ StampedBlock place stamp body body' := by
  obtain ⟨⟨_, htexts, hstamps⟩, hprint, hending⟩ := h
  simp only [nodesIn, Stmt.nodes, List.cons_append, List.forall_mem_cons,
    List.forall_mem_append] at hprint hending
  cases hstamps with
  | cons hs _ _ =>
    cases hs with
    | define hbody =>
      refine ⟨by simpa [Node.defines] using hprint.1, rfl, rfl, ?_⟩
      exact ⟨⟨_, (List.append_subset.1 htexts).1, hbody.of_giving hending.1⟩, hprint.2.1.2,
        hending.2.1.2⟩

/-- A definition and its stamped form. -/
structure StampedDefinition (place : Option Span → Prop) (stamp : String) (d d' : Definition) :
    Prop where
  params : d'.params = d.params
  body : StampedBlock place stamp d.body d'.body
  around : StampedAround place stamp d.around d'.around

theorem StampedDefinition.locals?_eq {d d' : Definition} (h : StampedDefinition place stamp d d')
    (args : List Int64) (keywords : List (String × Int64)) :
    d'.locals? args keywords = d.locals? args keywords := by
  obtain ⟨_, _, hstamps⟩ := h.body.stamps
  simp only [Definition.locals?, h.params, hstamps.targets_eq]

/-- The parameters and the body of a function in a block and in the stamped block. -/
theorem StampedBlock.definedIn (name : String) : ∀ {block block' : List Stmt},
    StampedBlock place stamp block block' →
      Option.Rel (fun d d' => d'.1 = d.1 ∧ StampedBlock place stamp d.2 d'.2)
        (definedIn name block) (definedIn name block')
  | [], block', h => by
    obtain ⟨⟨_, _, hstamps⟩, -, -⟩ := h
    cases hstamps
    exact .none
  | s :: ss, block', h => by
    obtain ⟨⟨_, _, hstamps⟩, -, -⟩ := id h
    cases hstamps with
    | cons hs hrest _ =>
      have hrest := h.tail.definedIn name
      cases hs with
      | define =>
        obtain ⟨-, -, -, hbody⟩ := h.body
        simp only [Stampline.definedIn]
        split
        · exact .some ⟨rfl, hbody⟩
        · exact hrest
      | _ => exact hrest

theorem StampedBlock.definedIn_print : ∀ {block block' : List Stmt},
    StampedBlock place stamp block block' → Stampline.definedIn printName block = none
  | [], _, _ => rfl
  | s :: ss, block', h => by
    obtain ⟨⟨_, _, hstamps⟩, -, -⟩ := id h
    cases hstamps with
    | cons hs _ _ =>
      cases hs with
      | define =>
        rw [Stampline.definedIn, if_neg h.body.1]
        exact h.tail.definedIn_print
      | _ => exact h.tail.definedIn_print

/-- A name refers to a function and to the stamped function, or to none. -/
theorem StampedAround.definition? (name : String) {around around' : List (List Stmt)}
    (h : StampedAround place stamp around around') :
    Option.Rel (StampedDefinition place stamp) (definition? name around)
      (definition? name around') := by
  induction h with
  | nil => exact .none
  | @cons block block' around around' hblock hrest ih =>
    have hd := hblock.definedIn name
    simp only [Stampline.definition?]
    revert hd
    generalize Stampline.definedIn name block = d
    generalize Stampline.definedIn name block' = d'
    rintro (⟨hparams, hbody⟩ | -)
    · exact .some ⟨hparams, hbody, .cons hbody (.cons hblock hrest)⟩
    · exact ih

theorem StampedAround.definition?_print {around around' : List (List Stmt)}
    (h : StampedAround place stamp around around') : Stampline.definition? printName around = none := by
  induction h with
  | nil => rfl
  | cons hblock _ ih =>
    rw [Stampline.definition?, hblock.definedIn_print]
    exact ih

/-! ## Slots

A stamp is a literal text, which is not put aside, so that stamping takes no slots. -/

section Slots

variable {around around' : List (List Stmt)}

theorem StampedAround.isNone_definition? (h : StampedAround place stamp around around')
    (name : String) :
    (Stampline.definition? name around').isNone = (Stampline.definition? name around).isNone := by
  have hd := h.definition? name
  revert hd
  generalize Stampline.definition? name around = d
  generalize Stampline.definition? name around' = d'
  rintro (- | -)
  · rfl
  · rfl

theorem Stamps.isText_eq {texts : List String} {e e' : Expr}
    (h : Stamps printName place texts e e') : e'.isText = e.isText := by
  cases h <;> rfl

theorem StampsArgs.countP_isText_eq {texts : List String} {es es' : List Expr}
    (h : StampsArgs printName place texts es es') :
    (es'.countP fun e => !e.isText) = es.countP fun e => !e.isText := by
  induction es generalizing texts es' with
  | nil =>
    cases h
    rfl
  | cons e es ih =>
    cases h with
    | cons h hrest => rw [List.countP_cons, List.countP_cons, ih hrest, h.isText_eq]

mutual

theorem Stamps.temporaries_eq (haround : StampedAround place stamp around around')
    {texts : List String} {e e' : Expr} :
    Stamps printName place texts e e' → e'.temporaries around' = e.temporaries around
  | .number | .text | .name | .member _ => rfl
  | .call hcallee hargs hkeywords _ => by
    cases hcallee with
    | name =>
      simp only [Expr.temporaries]
      rw [hargs.temporariesOf_eq haround, hkeywords.temporariesBy_eq haround,
        hargs.countP_isText_eq, hargs.length_args, hkeywords.length_keywords,
        hkeywords.isEmpty_eq, haround.isNone_definition?]
    | _ => rfl
  | .stamped hargs hkeywords _ _ => by
    simp only [Expr.temporaries, temporariesOf]
    rw [hargs.temporariesOf_eq haround, hkeywords.temporariesBy_eq haround,
      haround.isNone_definition?, haround.definition?_print, List.countP_cons,
      hargs.countP_isText_eq]
    simp [Expr.isText]
  | .binary hleft hright | .compare hleft hright => by
    rw [Expr.temporaries, Expr.temporaries, hleft.temporaries_eq haround,
      hright.temporaries_eq haround]
  | .negate h => h.temporaries_eq haround

theorem StampsArgs.temporariesOf_eq (haround : StampedAround place stamp around around')
    {texts : List String} {es es' : List Expr} :
    StampsArgs printName place texts es es' → temporariesOf around' es' = temporariesOf around es
  | .nil => rfl
  | .cons h hrest => by
    rw [temporariesOf, temporariesOf, h.temporaries_eq haround, hrest.temporariesOf_eq haround]

theorem StampsKeywords.temporariesBy_eq (haround : StampedAround place stamp around around')
    {texts : List String} {ks ks' : List Keyword} :
    StampsKeywords printName place texts ks ks' →
      temporariesBy around' ks' = temporariesBy around ks
  | .nil => rfl
  | .cons h hrest => by
    rw [temporariesBy, temporariesBy, h.temporaries_eq haround, hrest.temporariesBy_eq haround]

end

mutual

theorem StampsStmt.temporaries_eq (haround : StampedAround place stamp around around')
    {texts : List String} {s s' : Stmt} :
    StampsStmt printName place texts s s' → s'.temporaries around' = s.temporaries around
  | .define _ | .giveZero | .pass => rfl
  | .give h | .assign h | .eval h => h.temporaries_eq haround
  | .branch h hbody horelse => by
    rw [Stmt.temporaries, Stmt.temporaries, h.temporaries_eq haround,
      hbody.temporariesIn_eq haround, horelse.temporariesIn_eq haround]
  | .loop h hbody => by
    rw [Stmt.temporaries, Stmt.temporaries, h.temporaries_eq haround,
      hbody.temporariesIn_eq haround]

theorem StampsBlock.temporariesIn_eq (haround : StampedAround place stamp around around')
    {giving : Bool} {texts : List String} {ss ss' : List Stmt} :
    StampsBlock printName place giving texts ss ss' →
      temporariesIn around' ss' = temporariesIn around ss
  | .nil => rfl
  | .last h _ => by
    simp only [temporariesIn, Stmt.temporaries]
    rw [h.temporaries_eq haround]
  | .cons h hrest _ => by
    rw [temporariesIn, temporariesIn, h.temporaries_eq haround, hrest.temporariesIn_eq haround]

end

theorem StampedDefinition.slots_eq {d d' : Definition} (h : StampedDefinition place stamp d d') :
    d'.slots = d.slots := by
  obtain ⟨_, _, hstamps⟩ := h.body.stamps
  rw [Definition.slots, Definition.slots, h.params, hstamps.targets_eq,
    hstamps.temporariesIn_eq h.around]

theorem StampedBlock.slots_eq {p p' : Program} (h : StampedBlock place stamp p p') :
    p'.slots = p.slots := by
  obtain ⟨_, _, hstamps⟩ := h.stamps
  exact hstamps.temporariesIn_eq (.cons h .nil)

end Slots

/-! ## Stamped evaluations of programs -/

/-- An expression and its stamped form. -/
def StampedExpr (place : Option Span → Prop) (stamp : String) (e e' : Expr) : Prop :=
  ∃ texts ⊆ [stamp], Stamps printName place texts e e'

theorem StampsArgs.forall₂ : ∀ {texts : List String} {es es' : List Expr}, texts ⊆ [stamp] →
    StampsArgs printName place texts es es' → es.Forall₂ (StampedExpr place stamp) es'
  | _, _, _, _, .nil => .nil
  | _, _, _, htexts, .cons h hrest =>
    have htexts := List.append_subset.1 htexts
    .cons ⟨_, htexts.1, h⟩ (hrest.forall₂ htexts.2)

theorem StampsKeywords.names_eq : ∀ {texts : List String} {ks ks' : List Keyword},
    StampsKeywords printName place texts ks ks' → ks'.map (·.name) = ks.map (·.name)
  | _, _, _, .nil => rfl
  | _, _, _, .cons _ hrest => congrArg (_ :: ·) hrest.names_eq

theorem StampsKeywords.forall₂ : ∀ {texts : List String} {ks ks' : List Keyword},
    texts ⊆ [stamp] → StampsKeywords printName place texts ks ks' →
      (ks.map (·.value)).Forall₂ (StampedExpr place stamp) (ks'.map (·.value))
  | _, _, _, _, .nil => .nil
  | _, _, _, htexts, .cons h hrest =>
    have htexts := List.append_subset.1 htexts
    .cons ⟨_, htexts.1, h⟩ (hrest.forall₂ htexts.2)

/-- The options of a call of the printing function do not depend on what is printed. -/
theorem StampsKeywords.withOptions?_eq (stamp : String) :
    ∀ {texts : List String} {ks ks' : List Keyword},
    StampsKeywords printName place texts ks ks' → ∀ p : Printout,
      (p.stamped stamp).withOptions? ks' = (p.withOptions? ks).map (·.stamped stamp)
  | _, _, _, .nil, _ => rfl
  | _, _, _, .cons h hrest, p => by
    cases h with
    | @text _ value =>
      simp only [Printout.withOptions?]
      split
      · exact hrest.withOptions?_eq stamp { p with separator := value }
      · split
        · exact hrest.withOptions?_eq stamp { p with terminator := value }
        · rfl
    | _ => rfl

theorem Item.ofArgument_stamped {evaluate evaluate' : Expr → Eval Int64} {e e' : Expr}
    (h : StampedExpr place stamp e e')
    (hvalue : Eval.Stamped stamp (evaluate e) (evaluate' e')) :
    Eval.Stamped stamp (Item.ofArgument evaluate e) (Item.ofArgument evaluate' e') := by
  obtain ⟨_, _, h⟩ := h
  cases h with
  | text => exact .pure _
  | _ => exact hvalue.bind fun v => .pure _

variable {limits : Limits} {live : List Activation} {waiting : Nat}

/-- Expressions and their stamped forms are evaluated in turn. -/
theorem evaluateAll_stamped {evaluate evaluate' : Nat → Expr → Eval Int64}
    (h : ∀ waiting e e', StampedExpr place stamp e e' →
      Eval.Stamped stamp (evaluate waiting e) (evaluate' waiting e')) (kept : Nat)
    {es es' : List Expr} (hes : es.Forall₂ (StampedExpr place stamp) es') (waiting : Nat) :
    Eval.Stamped stamp (evaluateAll evaluate kept waiting es)
      (evaluateAll evaluate' kept waiting es') := by
  induction hes generalizing waiting with
  | nil => exact .pure []
  | cons he _ ih => exact (h waiting _ _ he).bind fun v => (ih (waiting + kept)).bind fun vs => .pure _

/-- What is said of the parts of a program and of the stamped program at some fuel. -/
structure StampedAt (limits : Limits) (place : Option Span → Prop) (stamp : String) (fuel : Nat) :
    Prop where
  evaluate : ∀ live waiting around around' locals e e', StampedAround place stamp around around' →
    StampedExpr place stamp e e' →
      Eval.Stamped stamp (e.evaluate limits fuel live waiting around locals)
        (e'.evaluate limits fuel live waiting around' locals)
  call : ∀ live waiting d d' locals, StampedDefinition place stamp d d' →
    Eval.Stamped stamp (d.call limits fuel live waiting locals)
      (d'.call limits fuel live waiting locals)
  execute : ∀ live around around' locals s s' texts, StampedAround place stamp around around' →
    texts ⊆ [stamp] → StampsStmt printName place texts s s' →
      Eval.Stamped stamp (s.execute limits fuel live around locals)
        (s'.execute limits fuel live around' locals)

variable {limits : Limits} {fuel : Nat} {live : List Activation} {waiting : Nat}
  {around around' : List (List Stmt)} {locals : Bindings}

section Exprs

variable {span span' span'' s : Option Span} {id : String} {args args' : List Expr}
  {keywords keywords' : List Keyword}

theorem evaluate_name_stamped (haround : StampedAround place stamp around around') :
    Eval.Stamped stamp ((Expr.name span id).evaluate limits (fuel + 1) live waiting around locals)
      ((Expr.name span' id).evaluate limits (fuel + 1) live waiting around' locals) := by
  simp only [Expr.evaluate]
  cases locals.get? id with
  | some v => exact .pure v
  | none =>
    have hd := haround.definition? id
    revert hd
    generalize definition? id around = d
    generalize definition? id around' = d'
    rintro (- | -)
    · exact .stuck
    · exact .readGlobal id

theorem evaluate_call_stamped (h : StampedAt limits place stamp fuel)
    (haround : StampedAround place stamp around around') (hid : id ≠ printName)
    {texts texts' : List String} (htexts : texts ⊆ [stamp]) (htexts' : texts' ⊆ [stamp])
    (hargs : StampsArgs printName place texts args args')
    (hkeywords : StampsKeywords printName place texts' keywords keywords') :
    Eval.Stamped stamp
      ((Expr.call span (.name s id) args keywords).evaluate limits (fuel + 1) live waiting around
        locals)
      ((Expr.call span (.name s id) args' keywords').evaluate limits (fuel + 1) live waiting around'
        locals) := by
  have hexpr : ∀ waiting e e', StampedExpr place stamp e e' →
      Eval.Stamped stamp (e.evaluate limits fuel live waiting around locals)
        (e'.evaluate limits fuel live waiting around' locals) :=
    fun waiting e e' => h.evaluate live waiting _ _ locals e e' haround
  have hd := haround.definition? id
  simp only [Expr.evaluate]
  revert hd
  generalize definition? id around = d
  generalize definition? id around' = d'
  rintro (⟨hd⟩ | -)
  · dsimp only
    rw [hkeywords.isEmpty_eq, hkeywords.names_eq]
    refine (evaluateAll_stamped hexpr _ (hargs.forall₂ htexts) waiting).bind fun values => ?_
    refine (evaluateAll_stamped hexpr 0 (hkeywords.forall₂ htexts') waiting).bind fun bound => ?_
    rw [hd.locals?_eq]
    split
    · exact h.call _ _ _ _ _ hd
    · exact .stuck
  · simp only [if_neg hid]
    exact .stuck

theorem evaluate_print_stamped (h : StampedAt limits place stamp fuel)
    (haround : StampedAround place stamp around around') {texts texts' : List String}
    (htexts : texts ⊆ [stamp]) (hargs : StampsArgs printName place texts args args')
    (hkeywords : StampsKeywords printName place texts' keywords keywords') :
    Eval.Stamped stamp
      ((Expr.call span (.name s printName) args keywords).evaluate limits (fuel + 1) live waiting
        around locals)
      ((Expr.call span' (.name s printName) (.text span'' stamp :: args') keywords').evaluate limits
        (fuel + 1) live waiting around' locals) := by
  have hnone := haround.definition?_print
  have hnone' : definition? printName around' = none := by
    rw [← Option.isNone_iff_eq_none, haround.isNone_definition?, hnone]
    rfl
  simp only [Expr.evaluate, hnone, hnone', if_true, List.mapM_cons, Item.ofArgument, pure_bind,
    bind_assoc]
  refine (Eval.Stamped.mapM (hargs.forall₂ htexts) fun e e' he => Item.ofArgument_stamped he
    (h.evaluate live waiting _ _ locals e e' haround he)).bind fun items => ?_
  have hoptions := hkeywords.withOptions?_eq stamp { items }
  simp only [Printout.stamped] at hoptions
  rw [hoptions]
  cases Printout.withOptions? { items } _ with
  | none => exact .stuck
  | some q => exact (Eval.Stamped.print q).bind fun _ => .pure 0

end Exprs

theorem StampedAt.evaluate_succ (h : StampedAt limits place stamp fuel) (live : List Activation)
    (waiting : Nat) (around around' : List (List Stmt)) (locals : Bindings) (e e' : Expr)
    (haround : StampedAround place stamp around around') (he : StampedExpr place stamp e e') :
    Eval.Stamped stamp (e.evaluate limits (fuel + 1) live waiting around locals)
      (e'.evaluate limits (fuel + 1) live waiting around' locals) := by
  obtain ⟨texts, htexts, he⟩ := he
  have hexpr : ∀ {waiting e e' texts}, texts ⊆ [stamp] → Stamps printName place texts e e' →
      Eval.Stamped stamp (e.evaluate limits fuel live waiting around locals)
        (e'.evaluate limits fuel live waiting around' locals) :=
    fun htexts he => h.evaluate live _ _ _ locals _ _ haround ⟨_, htexts, he⟩
  cases he with
  | number =>
    simp only [Expr.evaluate]
    exact .pure _
  | text =>
    simp only [Expr.evaluate]
    exact .stuck
  | name => exact evaluate_name_stamped haround
  | member =>
    simp only [Expr.evaluate]
    exact .stuck
  | call hcallee hargs hkeywords hother =>
    obtain ⟨-, htexts⟩ := List.append_subset.1 htexts
    obtain ⟨hargTexts, hkeywordTexts⟩ := List.append_subset.1 htexts
    cases hcallee with
    | @name _ id =>
      have hid : id ≠ printName := by simpa [Expr.isCallOf] using hother
      exact evaluate_call_stamped h haround hid hargTexts hkeywordTexts hargs hkeywords
    | _ =>
      simp only [Expr.evaluate]
      exact .stuck
  | stamped hargs hkeywords _ _ =>
    obtain ⟨htexts, hstamp⟩ := List.append_subset.1 htexts
    obtain rfl := List.mem_singleton.1 (hstamp (List.mem_singleton_self _))
    exact evaluate_print_stamped h haround (List.append_subset.1 htexts).1 hargs hkeywords
  | binary hleft hright =>
    obtain ⟨hl, hr⟩ := List.append_subset.1 htexts
    rw [Expr.evaluate, Expr.evaluate]
    exact (hexpr hl hleft).bind fun a => (hexpr hr hright).bind fun b => .ofExcept _
  | negate he =>
    rw [Expr.evaluate, Expr.evaluate]
    exact (hexpr htexts he).bind fun a => .pure _
  | compare hleft hright =>
    obtain ⟨hl, hr⟩ := List.append_subset.1 htexts
    rw [Expr.evaluate, Expr.evaluate]
    exact (hexpr hl hleft).bind fun a => (hexpr hr hright).bind fun b => .pure _

/-- Statements are executed in turn. -/
theorem StampsBlock.executeAll_stamped {execute execute' : Bindings → Stmt → Eval Flow}
    (h : ∀ locals s s' texts, texts ⊆ [stamp] → StampsStmt printName place texts s s' →
      Eval.Stamped stamp (execute locals s) (execute' locals s')) :
    ∀ {texts : List String} {ss ss' : List Stmt}, texts ⊆ [stamp] →
      StampsBlock printName place false texts ss ss' → ∀ locals,
        Eval.Stamped stamp (executeAll execute locals ss) (executeAll execute' locals ss')
  | _, _, _, _, .nil, _ => .pure _
  | _, _, _, htexts, .cons hs hrest _, locals => by
    obtain ⟨hhead, htail⟩ := List.append_subset.1 htexts
    refine (h locals _ _ _ hhead hs).bind fun flow => ?_
    cases flow with
    | next locals => exact hrest.executeAll_stamped h htail locals
    | leave v => exact .pure _

/-- A function and its stamped form are refused alike. -/
theorem StampedAt.call_succ (h : StampedAt limits place stamp fuel) (live : List Activation)
    (waiting : Nat) (d d' : Definition) (locals : Bindings) (hd : StampedDefinition place stamp d d') :
    Eval.Stamped stamp (d.call limits (fuel + 1) live waiting locals)
      (d'.call limits (fuel + 1) live waiting locals) := by
  obtain ⟨texts, htexts, hbody⟩ := hd.body.stamps
  rw [Definition.call, Definition.call, hd.slots_eq]
  refine .enter _ ((hbody.executeAll_stamped (fun locals s s' texts => h.execute _ _ _ locals s s'
    texts hd.around) htexts locals).bind fun flow => ?_)
  cases flow <;> exact .pure _

theorem StampedAt.execute_succ (h : StampedAt limits place stamp fuel) (live : List Activation)
    (around around' : List (List Stmt)) (locals : Bindings) (s s' : Stmt) (texts : List String)
    (haround : StampedAround place stamp around around') (htexts : texts ⊆ [stamp])
    (hs : StampsStmt printName place texts s s') :
    Eval.Stamped stamp (s.execute limits (fuel + 1) live around locals)
      (s'.execute limits (fuel + 1) live around' locals) := by
  have hexpr : ∀ {waiting e e' texts}, texts ⊆ [stamp] → Stamps printName place texts e e' →
      Eval.Stamped stamp (e.evaluate limits fuel live waiting around locals)
        (e'.evaluate limits fuel live waiting around' locals) :=
    fun htexts he => h.evaluate live _ _ _ locals _ _ haround ⟨_, htexts, he⟩
  have hblock : ∀ {ss ss' texts}, texts ⊆ [stamp] →
      StampsBlock printName place false texts ss ss' → ∀ locals, Eval.Stamped stamp
        (executeAll (fun locals s => s.execute limits fuel live around locals) locals ss)
        (executeAll (fun locals s => s.execute limits fuel live around' locals) locals ss') :=
    fun htexts hss => hss.executeAll_stamped (fun locals s s' texts => h.execute live _ _ locals s s'
      texts haround) htexts
  cases hs with
  | define | pass | giveZero =>
    simp only [Stmt.execute]
    exact .pure _
  | give he | eval he =>
    simp only [Stmt.execute]
    exact (hexpr htexts he).bind fun v => .pure _
  | assign he =>
    simp only [Stmt.execute]
    split
    · exact (hexpr htexts he).bind fun v => .pure _
    · exact (hexpr htexts he).bind fun v => (Eval.Stamped.writeGlobal _ v).bind fun _ => .pure _
  | branch he hbody horelse =>
    obtain ⟨htest, htexts⟩ := List.append_subset.1 htexts
    obtain ⟨hbodyTexts, horelseTexts⟩ := List.append_subset.1 htexts
    simp only [Stmt.execute]
    refine (hexpr htest he).bind fun v => ?_
    split
    · exact hblock horelseTexts horelse locals
    · exact hblock hbodyTexts hbody locals
  | loop he hbody =>
    obtain ⟨htest, hbodyTexts⟩ := List.append_subset.1 htexts
    simp only [Stmt.execute]
    refine (hexpr htest he).bind fun v => ?_
    split
    · exact .pure _
    · refine (hblock hbodyTexts hbody locals).bind fun flow => ?_
      cases flow with
      | next locals => exact h.execute live _ _ locals _ _ _ haround htexts (.loop he hbody)
      | leave v => exact .pure _

/-- At every fuel, the parts of a stamped program do what those of the program do. -/
theorem stampedAt (limits : Limits) (place : Option Span → Prop) (stamp : String) (fuel : Nat) :
    StampedAt limits place stamp fuel := by
  induction fuel with
  | zero =>
    refine ⟨fun _ _ _ _ _ e e' _ _ => ?_, fun _ _ d d' _ _ => ?_, fun _ _ _ _ s s' _ _ _ _ => ?_⟩
    · rw [Expr.evaluate, Expr.evaluate]
      exact .unfinished
    · rw [Definition.call, Definition.call]
      exact .unfinished
    · rw [Stmt.execute, Stmt.execute]
      exact .unfinished
  | succ fuel ih => exact ⟨ih.evaluate_succ, ih.call_succ, ih.execute_succ⟩

/-- A stamped program does what the program does, and stamps every printout. -/
theorem Program.meaning_stamped {p p' : Program} (h : StampedBlock place stamp p p')
    (limits : Limits) (fuel : Nat) :
    Eval.Stamped stamp (p.meaning limits fuel) (p'.meaning limits fuel) := by
  obtain ⟨texts, htexts, hstamps⟩ := h.stamps
  have haround : StampedAround place stamp [p] [p'] := .cons h .nil
  rw [Program.meaning, Program.meaning, h.slots_eq]
  refine .enter _ ((hstamps.executeAll_stamped (fun locals s s' texts =>
    (stampedAt limits place stamp fuel).execute _ _ _ locals s s' texts haround) htexts ∅).bind
      fun flow => ?_)
  cases flow with
  | next => exact .pure _
  | leave => exact .stuck

end Stampline
