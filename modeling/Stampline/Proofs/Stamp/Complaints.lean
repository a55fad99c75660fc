import Stampline.Proofs.Lowering.Emission
import Stampline.Proofs.Stamp.Functions
import Stampline.Proofs.Stamp.Located

/-!
# Stamping and complaints

A program whose calls of the printing function are stamped is lowered if it was before, and otherwise
with the same complaint. A complaint is about a node that stamping left where it stood: a stamped call
is one of the printing function, which is only ever complained about for its keyword arguments.
-/

namespace Stampline

/-! ## Results with the same error -/

/-- Two results are the same error, or they succeed with values that are related by `R`. -/
inductive Alike {ε α β : Type} (R : α → β → Prop) : Except ε α → Except ε β → Prop where
  | ok {a b} (h : R a b) : Alike R (.ok a) (.ok b)
  | error {e} : Alike R (.error e) (.error e)

namespace Alike

variable {ε α β γ δ : Type} {R : α → β → Prop} {S : γ → δ → Prop} {x : Except ε α} {y : Except ε β}
  {f : α → Except ε γ} {g : β → Except ε δ}

theorem bind (h : Alike R x y) (hfg : ∀ a b, R a b → Alike S (f a) (g b)) :
    Alike S (x >>= f) (y >>= g) := by
  cases h with
  | ok h => exact hfg _ _ h
  | error => exact .error

theorem refl {R : α → α → Prop} (hR : ∀ a, R a a) : ∀ x : Except ε α, Alike R x x
  | .ok a => .ok (hR a)
  | .error _ => .error

theorem mapM {ι κ : Type} {T : ι → κ → Prop} {f : ι → Except ε α} {g : κ → Except ε β}
    {is : List ι} {ks : List κ} (h : is.Forall₂ T ks) (hfg : ∀ i k, T i k → Alike R (f i) (g k)) :
    Alike (List.Forall₂ R) (is.mapM f) (ks.mapM g) := by
  induction h with
  | nil => exact .ok .nil
  | cons hik _ ih =>
    rw [List.mapM_cons, List.mapM_cons]
    exact (hfg _ _ hik).bind fun _ _ hR => ih.bind fun _ _ hRs => .ok (.cons hR hRs)

end Alike

namespace Emit

/-- Two code generations make the same complaint, or use the same slots and give results that are
related by `R`. -/
def Alike {α β : Type} (R : α → β → Prop) (x : Emit α) (y : Emit β) : Prop :=
  ∀ n, Stampline.Alike (fun r r' => R r.1 r'.1 ∧ r.2 = r'.2) (x n) (y n)

/-- Two code generations make the same complaint or use the same slots. -/
abbrev SameComplaint {α β : Type} (x : Emit α) (y : Emit β) : Prop := Alike (fun _ _ => True) x y

variable {α β γ δ : Type} {R : α → β → Prop} {S : γ → δ → Prop} {x : Emit α} {y : Emit β}
  {f : α → Emit γ} {g : β → Emit δ}

theorem Alike.pure {a : α} {b : β} (h : R a b) : Alike R (Pure.pure a) (Pure.pure b) :=
  fun _ => .ok ⟨h, rfl⟩

theorem Alike.bind (h : Alike R x y) (hfg : ∀ a b, R a b → Alike S (f a) (g b)) :
    Alike S (x >>= f) (y >>= g) := fun n => (h n).bind fun r r' ⟨hR, hn⟩ => by
  obtain ⟨a, m⟩ := r
  obtain ⟨b, m'⟩ := r'
  obtain rfl : m = m' := hn
  exact hfg a b hR m

theorem Alike.refl {R : α → α → Prop} (hR : ∀ a, R a a) (x : Emit α) : Alike R x x :=
  fun n => .refl (fun r => ⟨hR r.1, rfl⟩) (x n)

theorem SameComplaint.refl (x : Emit α) : SameComplaint x x := Alike.refl (fun _ => trivial) x

theorem SameComplaint.bind (h : SameComplaint x y) (hfg : ∀ a b, SameComplaint (f a) (g b)) :
    SameComplaint (x >>= f) (y >>= g) := Alike.bind h fun a b _ => hfg a b

/-- A check comes first in both code generations. -/
theorem SameComplaint.check {c : Prop} [Decidable c] (check : Emit γ) (h : SameComplaint x y) :
    SameComplaint (if c then check >>= fun _ => x else x) (if c then check >>= fun _ => y else y) := by
  split
  · exact (SameComplaint.refl check).bind fun _ _ => h
  · exact h

theorem Alike.lift {r : Except Complaint α} {r' : Except Complaint β} (h : Stampline.Alike R r r') :
    Alike R (liftM r : Emit α) (liftM r' : Emit β) := fun _ => by
  cases h with
  | ok h => exact .ok ⟨h, rfl⟩
  | error => exact .error

end Emit

open Emit (SameComplaint)

/-! ## Calls -/

section Calls

variable {target : String} {place : Option Span → Prop}

/-- Nothing but a text is stamped to a text. -/
theorem Stamps.ne_text {texts : List String} {e e' : Expr} (h : Stamps target place texts e e')
    (htext : ∀ span value, e ≠ .text span value) : ∀ span value, e' ≠ .text span value := by
  cases h with
  | text => exact absurd rfl (htext _ _)
  | _ => exact fun _ _ => Expr.noConfusion

theorem StampsKeywords.printOptions_eq {texts : List String} {ks ks' : List Keyword} :
    StampsKeywords target place texts ks ks' → ∀ separator terminator : String,
      printOptions ks' separator terminator = printOptions ks separator terminator
  | .nil, _, _ => rfl
  | .cons h hrest, separator, terminator => by
    cases h with
    | text =>
      simp only [printOptions]
      split
      · exact hrest.printOptions_eq _ _
      · split
        · exact hrest.printOptions_eq _ _
        · rfl
    | _ => rfl

variable {f f' : Function}

theorem StampsKeywords.bindKeywords_eq (hname : f'.name = f.name) (hparams : f'.params = f.params)
    {texts : List String} {ks ks' : List Keyword} :
    StampsKeywords target place texts ks ks' → ∀ bound : List Nat,
      bindKeywords f' ks' bound = bindKeywords f ks bound
  | .nil, _ => rfl
  | .cons _ hrest, bound => by
    unfold bindKeywords
    rw [hname, hparams]
    split
    · rfl
    · rw [hrest.bindKeywords_eq hname hparams]

theorem StampsKeywords.bindArguments_eq (hname : f'.name = f.name) (hparams : f'.params = f.params)
    {texts : List String} {ks ks' : List Keyword} (h : StampsKeywords target place texts ks ks')
    (span : Option Span) (given : Nat) : bindArguments span f' given ks' = bindArguments span f given ks := by
  simp only [bindArguments, hname, hparams, h.bindKeywords_eq hname hparams]

end Calls

/-! ## Expressions -/

section Emission

variable {place : Option Span → Prop} {texts : List String} {site site' : Site}

/-- Code for a program and code for the stamped program are generated in the same surroundings. -/
structure StampsSite (place : Option Span → Prop) (texts : List String) (site site' : Site) :
    Prop where
  functions : StampsFunctions printName place texts site.functions site'.functions
  scope : site'.scope = site.scope
  locals : site'.locals = site.locals
  inFunction : site'.inFunction = site.inFunction
  print : site.scope.resolve? printName = none

/-- Callees stand for the same function, up to its body. -/
inductive Target.Stamps : Target → Target → Prop where
  | function {index f f'} (hname : f'.name = f.name) (hparams : f'.params = f.params) :
      Target.Stamps (.function index f) (.function index f')
  | print : Target.Stamps .print .print

theorem StampsSite.target (h : StampsSite place texts site site') {more : List String} {e e' : Expr}
    (he : Stamps printName place more e e') (span : Option Span) :
    Alike Target.Stamps (target site span e) (target site' span e') := by
  cases he with
  | @name _ id =>
    simp only [Stampline.target, h.scope]
    cases site.scope.resolve? id with
    | none =>
      dsimp only
      split
      · exact .ok .print
      · exact .error
    | some index =>
      dsimp only
      cases hf : site.functions[index]? with
      | none =>
        rw [h.functions.getElem?_eq_none hf]
        exact .error
      | some f =>
        obtain ⟨f', hf', _, -, hff'⟩ := h.functions.getElem?_eq_some hf
        rw [hf']
        exact .ok (.function hff'.name hff'.params)
  | _ => exact .error

/-- A call of the printing function is known wherever the call itself stands. -/
theorem StampsSite.target_print (h : StampsSite place texts site site') (span here : Option Span) :
    Stampline.target site span (.name here printName) = .ok .print ∧
      Stampline.target site' span (.name here printName) = .ok .print := by
  simp [Stampline.target, h.scope, h.print]

theorem nameCode_alike (h : StampsSite place texts site site') (span : Option Span) (id : String) :
    SameComplaint (nameCode site span id) (nameCode site' span id) := by
  simp only [nameCode, h.scope, h.locals]
  exact .refl _

mutual

/-- An expression and the stamped expression are complained about alike. -/
theorem Stamps.emit (hsite : StampsSite place texts site site') {more : List String} {e e' : Expr} :
    Stamps printName place more e e' → SameComplaint (e.emit site) (e'.emit site')
  | .number | .text | .member _ => .refl _
  | .name => nameCode_alike hsite _ _
  | .call hcallee hargs hkeywords _ => by
    refine Emit.Alike.bind (.lift (hsite.target hcallee _)) fun t t' ht => ?_
    cases ht with
    | function hname hparams =>
      dsimp only
      rw [hkeywords.bindArguments_eq hname hparams, hargs.length_args, hkeywords.isEmpty_eq]
      refine SameComplaint.bind (.refl _) fun _ _ => ?_
      split
      · exact (hargs.emitArgs hsite).bind fun _ _ => .pure trivial
      · exact (hargs.storeArgs hsite).bind fun _ _ => (hkeywords.storeKeywords hsite).bind
          fun _ _ => .pure trivial
    | print =>
      dsimp only
      rw [hkeywords.printOptions_eq]
      exact SameComplaint.bind (.refl _) fun _ _ => (hargs.printedArgs hsite).bind
        fun _ _ => .pure trivial
  | .stamped hargs hkeywords _ _ => by
    -- The stamped call may stand elsewhere, but its callee is known to be the printing function.
    simp only [Expr.emit, (hsite.target_print _ _).1, (hsite.target_print _ _).2,
      hkeywords.printOptions_eq]
    refine Emit.Alike.bind (R := fun t t' => t = .print ∧ t' = .print) (.lift (.ok ⟨rfl, rfl⟩)) ?_
    rintro _ _ ⟨rfl, rfl⟩
    simp only [Stampline.printedArgs, bind_assoc, pure_bind]
    exact SameComplaint.bind (.refl _) fun _ _ => (hargs.printedArgs hsite).bind fun _ _ =>
      .pure trivial
  | .binary hleft hright | .compare hleft hright =>
    (hleft.emit hsite).bind fun _ _ => (hright.emit hsite).bind fun _ _ => .pure trivial
  | .negate h => (h.emit hsite).bind fun _ _ => .pure trivial

theorem StampsArgs.emitArgs (hsite : StampsSite place texts site site') {more : List String}
    {es es' : List Expr} : StampsArgs printName place more es es' →
      SameComplaint (emitArgs site es) (emitArgs site' es')
  | .nil => .pure trivial
  | .cons h hrest => (h.emit hsite).bind fun _ _ => (hrest.emitArgs hsite).bind fun _ _ =>
      .pure trivial

theorem StampsArgs.storeArgs (hsite : StampsSite place texts site site') {more : List String}
    {es es' : List Expr} : StampsArgs printName place more es es' →
      SameComplaint (storeArgs site es) (storeArgs site' es')
  | .nil => .pure trivial
  | .cons h hrest => (h.emit hsite).bind fun _ _ => .bind (SameComplaint.refl _)
      fun _ _ => (hrest.storeArgs hsite).bind fun _ _ => .pure trivial

theorem StampsKeywords.storeKeywords (hsite : StampsSite place texts site site')
    {more : List String} {ks ks' : List Keyword} : StampsKeywords printName place more ks ks' →
      SameComplaint (storeKeywords site ks) (storeKeywords site' ks')
  | .nil => .pure trivial
  | .cons h hrest => (h.emit hsite).bind fun _ _ => .bind (SameComplaint.refl _)
      fun _ _ => (hrest.storeKeywords hsite).bind fun _ _ => .pure trivial

theorem StampsArgs.printedArgs (hsite : StampsSite place texts site site') {more : List String}
    {es es' : List Expr} : StampsArgs printName place more es es' →
      SameComplaint (printedArgs site es) (printedArgs site' es')
  | .nil => .pure trivial
  | .cons (e := e) h hrest => by
    by_cases htext : ∃ span value, e = .text span value
    · obtain ⟨span, value, rfl⟩ := htext
      cases h
      exact (hrest.printedArgs hsite).bind fun _ _ => .pure trivial
    · have htext : ∀ span value, e ≠ .text span value := fun span value he =>
        htext ⟨span, value, he⟩
      rw [printedArgs_cons_value htext, printedArgs_cons_value (h.ne_text htext)]
      exact (h.emit hsite).bind fun _ _ => .bind (SameComplaint.refl _)
        fun _ _ => (hrest.printedArgs hsite).bind fun _ _ => .pure trivial

end

/-! ## Statements -/

mutual

/-- A statement and the stamped statement are complained about alike. -/
theorem StampsStmt.emit (hsite : StampsSite place texts site site') {more : List String}
    {s s' : Stmt} : StampsStmt printName place more s s' → SameComplaint (s.emit site) (s'.emit site')
  | .define _ | .pass => .pure trivial
  | .giveZero => by
    simp only [Stmt.emit, hsite.inFunction]
    exact .refl _
  | .give h => by
    simp only [Stmt.emit, hsite.inFunction]
    exact .check _ ((h.emit hsite).bind fun _ _ => .pure trivial)
  | .assign h => by
    simp only [Stmt.emit, hsite.locals]
    split <;> exact (h.emit hsite).bind fun _ _ => .pure trivial
  | .eval h => (h.emit hsite).bind fun _ _ => .pure trivial
  | .branch h hbody horelse => by
    simp only [Stmt.emit, hbody.isEmpty_eq, horelse.isEmpty_eq]
    exact (h.emit hsite).bind fun _ _ => .check _ <| (hbody.emit hsite nofun).bind fun _ _ =>
      (horelse.emit hsite nofun).bind fun _ _ => .pure trivial
  | .loop h hbody => by
    simp only [Stmt.emit, hbody.isEmpty_eq]
    exact (h.emit hsite).bind fun _ _ => .check _ <| (hbody.emit hsite nofun).bind fun _ _ =>
      .pure trivial

/-- A block and the stamped block are complained about alike. A body that ends in an expression gives
its value, which only a function does. -/
theorem StampsBlock.emit (hsite : StampsSite place texts site site') {giving : Bool}
    {more : List String} {ss ss' : List Stmt} : StampsBlock printName place giving more ss ss' →
      (giving = true → site.inFunction = true) →
        SameComplaint (emitBlock site ss) (emitBlock site' ss')
  | .nil, _ => .pure trivial
  | .last h _, hgiving => by
    simp only [emitBlock, Stmt.emit, hsite.inFunction, hgiving rfl, Bool.not_true,
      Bool.false_eq_true, if_false, bind_assoc, pure_bind]
    exact (h.emit hsite).bind fun _ _ => .pure trivial
  | .cons h hrest _, hgiving => (h.emit hsite).bind fun _ _ =>
      (hrest.emit hsite hgiving).bind fun _ _ => .pure trivial

end

end Emission

/-! ## Programs -/

section Programs

variable {place : Option Span → Prop} {texts : List String}

/-- A function and the stamped function are complained about alike. -/
theorem StampsFunction.emit_alike {fs fs' : List Function}
    (hfs : StampsFunctions printName place texts fs fs') {f f' : Function} {stamps : List String}
    (h : StampsFunction printName place stamps f f') (hprint : f.scope.resolve? printName = none) :
    Alike (fun _ _ => True) (f.emit fs) (f'.emit fs') := by
  have hsite : StampsSite place texts ⟨fs, f.scope, f.locals, true⟩ ⟨fs', f'.scope, f.locals, true⟩ :=
    ⟨hfs, h.scope, rfl, rfl, hprint⟩
  rw [Function.emit, Function.emit, h.locals_eq]
  exact (h.body.emit hsite (fun _ => rfl) f.locals.length).bind fun _ _ _ => .ok trivial

/-- A program and the stamped program are complained about alike, or both have code. -/
theorem Program.code_alike {p p' : Program} (h : StampsBlock printName place false texts p p')
    (hprint : ∀ n ∈ p.nodes, n.defines printName = false) :
    Alike (fun _ _ => True) p.code p'.code := by
  obtain ⟨hscope, hfs⟩ := h.functions_program
  obtain ⟨hscopePrint, hfunctionsPrint⟩ := Program.resolve?_eq_none hprint
  have hsite : StampsSite place texts ⟨p.functions, p.scope, [], false⟩
      ⟨p'.functions, p'.scope, [], false⟩ := ⟨hfs, hscope, rfl, rfl, hscopePrint⟩
  have hdefined := (List.forall₂_and_left _ _).2 ⟨hfunctionsPrint, hfs⟩
  refine (Alike.mapM (R := fun _ _ => True) hdefined ?_).bind fun _ _ _ => ?_
  · rintro f f' ⟨hf, stamps, -, h⟩
    exact (h.emit_alike hfs hf).bind fun _ _ _ => .ok trivial
  · exact (h.emit hsite nofun 0).bind fun _ _ _ => .ok trivial

/-- A program and the stamped program are lowered with the same complaint, or both are lowered, if
every node of both has a place. -/
theorem Program.lower_alike {p p' : Program} (h : StampsBlock printName place false texts p p')
    (hprint : ∀ n ∈ p.nodes, n.defines printName = false) (hp : p.firstUnlocated? = none)
    (hp' : p'.firstUnlocated? = none) : Alike (fun _ _ => True) p.lower p'.lower := by
  have hcode := Program.code_alike h hprint
  unfold Program.lower
  rw [hp, hp', h.checkDefinitionsIn_eq]
  cases checkDefinitionsIn true [] p with
  | error => exact .error
  | ok =>
    dsimp only
    revert hcode
    generalize p.code = x
    generalize p'.code = y
    rintro (⟨-⟩ | -)
    · exact .ok trivial
    · exact .error

end Programs

/-- Stamping a source in which no function has the name of the printing function, and locating the
nodes that are made, changes neither whether it is lowered nor what is said if it is not. -/
theorem Program.executable_stamped {source : String} {p : Program}
    (hparse : Program.parse source = .ok p)
    (hprint : ∀ n ∈ p.nodes, n.defines printName = false) (stamper : Stamper) :
    (∀ text, stamper.policy = .fixed text → ∃ new progress,
      p.rewrite (stampRules printName) stamper = (.ok new, progress)) ∧
    ∀ new progress, p.rewrite (stampRules printName) stamper = (.ok new, progress) →
      ∀ name, (∃ x x', p.executable name = .ok x ∧ new.locate.1.executable name = .ok x') ∨
        ∃ e, p.executable name = .error e ∧ new.locate.1.executable name = .error e := by
  constructor
  · intro text hpolicy
    obtain ⟨new, progress, _, hrewrite, -⟩ := p.rewrite_fixed printName hpolicy
    exact ⟨new, progress, hrewrite⟩
  · intro new progress hrewrite name
    have hrewritten := p.rewrite_stampRules printName stamper
    rw [hrewrite] at hrewritten
    obtain ⟨texts, -, hstamps, -⟩ := hrewritten
    obtain ⟨_, hlies⟩ := Program.lies_of_parse hparse
    have hlower := Program.lower_alike (Program.locate_stamped hstamps hlies).1 hprint
      (Program.located_of_parse hparse) new.firstUnlocated?_locate
    unfold Program.executable
    revert hlower
    generalize p.lower = x
    generalize new.locate.1.lower = y
    rintro (_ | _)
    · exact .inl ⟨_, _, rfl, rfl⟩
    · exact .inr ⟨_, rfl, rfl⟩

/-- A source whose function ends in a call of the printing function with a keyword argument that it does
not have. -/
def misprintingSource : String := "def f(a):\n  print(print(a), stop=a)\nf(2)\n"

theorem executable_stamped_misprintingSource : ∃ p, Program.parse misprintingSource = .ok p ∧
    (∀ n ∈ Program.nodes p, n.defines printName = false) ∧ ∀ stamper : Stamper,
      (∀ text, stamper.policy = .fixed text → ∃ new progress,
        p.rewrite (stampRules printName) stamper = (.ok new, progress)) ∧
      ∀ new progress, p.rewrite (stampRules printName) stamper = (.ok new, progress) →
        ∀ name, (∃ x x', p.executable name = .ok x ∧ new.locate.1.executable name = .ok x') ∨
          ∃ e, p.executable name = .error e ∧ new.locate.1.executable name = .error e := by
  have hparsed : (Program.parse misprintingSource).toOption.isSome = true ∧
      ((Program.parse misprintingSource).toOption.all fun p =>
        p.nodes.all fun n => !n.defines printName) = true := by decide +kernel
  cases h : Program.parse misprintingSource with
  | error e =>
    rw [h] at hparsed
    cases hparsed.1
  | ok p =>
    rw [h] at hparsed
    have hprint : ∀ n ∈ Program.nodes p, n.defines printName = false := by
      simpa [Except.toOption] using hparsed.2
    exact ⟨p, rfl, hprint, Program.executable_stamped h hprint⟩

end Stampline
