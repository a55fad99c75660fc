import Stampline.Evaluation.Program

/-!
# The globals that a program writes

An evaluation writes the names that are assigned outside definitions and keeps all other globals as they
are, however it ends. A call writes nothing: it begins with all names bound that its body assigns, a
name that is bound stays bound until the function is left, and what is bound is not assigned as a global.
-/

namespace Stampline

/-- The second bindings are the first ones, but for the given names, which may have been bound to
something else. -/
structure Bindings.BindsOnly (names : List String) (b b' : Bindings) : Prop where
  kept : ∀ name, name ∉ names → b'.get? name = b.get? name
  bound : ∀ name, b.get? name ≠ none → b'.get? name ≠ none

namespace Bindings.BindsOnly

variable {names : List String} {b b' b'' : Bindings}

theorem refl : b.BindsOnly names b := ⟨fun _ _ => rfl, fun _ h => h⟩

theorem trans (h : b.BindsOnly names b') (h' : b'.BindsOnly names b'') : b.BindsOnly names b'' := by
  constructor
  · intro name hname
    rw [h'.kept name hname, h.kept name hname]
  · intro name hname
    exact h'.bound name (h.bound name hname)

theorem set {target : String} (htarget : target ∈ names) (value : Int64) :
    b.BindsOnly names (b.set target value) := by
  constructor
  · intro name hname
    have hne : name ≠ target := fun h => hname (h ▸ htarget)
    rw [Bindings.get?_set, if_neg hne]
  · intro name hname
    rw [Bindings.get?_set]
    by_cases hne : name = target
    · rw [if_pos hne]
      exact Option.some_ne_none value
    · rw [if_neg hne]
      exact hname

end Bindings.BindsOnly

/-! ## Locals -/

namespace Bindings

/-- Every name that is bound in `b` is bound in `b'`. -/
def KeptIn (b b' : Bindings) : Prop := ∀ name, (b.get? name).isSome → (b'.get? name).isSome

theorem keptIn_set (b : Bindings) (target : String) (value : Int64) :
    b.KeptIn (b.set target value) := by
  intro name hname
  rw [get?_set]
  by_cases hne : name = target
  · rw [if_pos hne]
    rfl
  · rw [if_neg hne]
    exact hname

theorem keptIn_setAll : ∀ (values : List (String × Int64)) (b : Bindings), b.KeptIn (b.setAll values)
  | [], _ => fun _ h => h
  | (n, v) :: values, b => fun name hname =>
    keptIn_setAll values (b.set n v) name (b.keptIn_set n v name hname)

/-- All names are bound, but for those in `names`. -/
def Covers (b : Bindings) (names targets : List String) : Prop :=
  ∀ target ∈ targets, (b.get? target).isSome ∨ target ∈ names

theorem Covers.keptIn {b b' : Bindings} {names targets : List String} (h : b.Covers names targets)
    (hkept : b.KeptIn b') : b'.Covers names targets := fun target htarget =>
  (h target htarget).imp_left (hkept target)

theorem covers_append {b : Bindings} {names ts us : List String} :
    b.Covers names (ts ++ us) ↔ b.Covers names ts ∧ b.Covers names us := by
  simp only [Covers, List.mem_append, or_imp, forall_and]

/-- Names that were bound to zero are bound. -/
theorem covers_setAll_zero (names : List String) : ∀ (targets : List String) (b : Bindings),
    (b.setAll (targets.map fun name => (name, 0))).Covers names targets
  | [], _ => nofun
  | n :: targets, b => by
    intro target htarget
    rcases List.mem_cons.1 htarget with rfl | htarget
    · refine .inl (keptIn_setAll _ (b.set target 0) target ?_)
      rw [get?_set, if_pos rfl]
      rfl
    · exact covers_setAll_zero names targets (b.set n 0) target htarget

end Bindings

/-- A call begins with all names bound that the body assigns. -/
theorem Definition.covers_of_locals? {d : Definition} {args : List Int64}
    {keywords : List (String × Int64)} {locals : Bindings} (h : d.locals? args keywords = some locals)
    (names : List String) : locals.Covers names (targetsIn d.body) := by
  unfold Definition.locals? at h
  dsimp only at h
  split at h
  · obtain rfl := Option.some.inj h
    exact (Bindings.covers_setAll_zero names _ ∅).keptIn (Bindings.keptIn_setAll _ _)
  · cases h

/-! ## Evaluations -/

/-- However the evaluation ends, it has written at most the given names. A value that it comes to has
the property `post`. -/
def Eval.Writes {α : Type} (names : List String) (x : Eval α) (post : α → Prop) : Prop :=
  ∀ σ, match x σ with
    | .done value τ => σ.globals.BindsOnly names τ.globals ∧ post value
    | .fault _ τ => σ.globals.BindsOnly names τ.globals
    | _ => True

namespace Eval.Writes

variable {α β : Type} {names : List String} {x : Eval α} {f : α → Eval β} {mid : α → Prop}
  {post : β → Prop}

theorem pure {value : α} (h : mid value) : Eval.Writes names (Pure.pure value) mid :=
  fun _ => ⟨.refl, h⟩

theorem bind (hx : x.Writes names mid) (hf : ∀ value, mid value → (f value).Writes names post) :
    (x >>= f).Writes names post := by
  intro σ
  have hxσ := hx σ
  rw [Eval.bind_apply]
  cases hresult : x σ with
  | done value τ =>
    rw [hresult] at hxσ
    have hfτ := hf value hxσ.2 τ
    dsimp only at hfτ ⊢
    cases hsecond : f value τ with
    | done value' υ =>
      rw [hsecond] at hfτ
      exact ⟨hxσ.1.trans hfτ.1, hfτ.2⟩
    | fault fault υ =>
      rw [hsecond] at hfτ
      exact hxσ.1.trans hfτ
    | _ => trivial
  | fault fault τ =>
    rw [hresult] at hxσ
    exact hxσ
  | _ => trivial

theorem imp {mid' : α → Prop} (hx : x.Writes names mid) (himp : ∀ value, mid value → mid' value) :
    x.Writes names mid' := by
  rw [← bind_pure x]
  exact hx.bind fun value hvalue => pure (himp value hvalue)

theorem stuck : Eval.Writes names .stuck mid := fun _ => trivial

theorem unfinished : Eval.Writes names .unfinished mid := fun _ => trivial

theorem ofExcept {r : Except Fault α} (h : ∀ value, mid value) :
    Eval.Writes names (.ofExcept r) mid := by
  intro σ
  cases r with
  | ok value => exact ⟨.refl, h value⟩
  | error fault => exact .refl

theorem readGlobal (name : String) : Eval.Writes names (.readGlobal name) fun _ => True := by
  intro σ
  unfold Eval.readGlobal
  cases σ.globals.get? name with
  | some value => exact ⟨.refl, trivial⟩
  | none => exact .refl

theorem writeGlobal {target : String} (htarget : target ∈ names) (value : Int64) :
    Eval.Writes names (.writeGlobal target value) fun _ => True :=
  fun _ => ⟨.set htarget value, trivial⟩

theorem print (p : Printout) : Eval.Writes names (.print p) fun _ => True :=
  fun _ => ⟨.refl, trivial⟩

theorem enter {limits : Limits} {live : List Activation} (h : x.Writes names mid) :
    (limits.enter live x).Writes names mid := by
  cases hlive : limits live with
  | some f =>
    rw [Limits.enter_of_refused hlive]
    exact fun _ => .refl
  | none =>
    rw [Limits.enter_of_free hlive]
    exact h

end Eval.Writes

/-! ## Lists -/

section Lists

variable {names : List String}

theorem writes_evaluateAll {evaluate : Nat → Expr → Eval Int64}
    (h : ∀ waiting e, (evaluate waiting e).Writes names fun _ => True) (kept : Nat) :
    ∀ (es : List Expr) (waiting : Nat),
      (evaluateAll evaluate kept waiting es).Writes names fun _ => True
  | [], _ => .pure trivial
  | e :: es, waiting => (h waiting e).bind fun _ _ =>
    (writes_evaluateAll h kept es (waiting + kept)).bind fun _ _ => .pure trivial

theorem writes_ofArguments {evaluate : Expr → Eval Int64}
    (h : ∀ e, (evaluate e).Writes names fun _ => True) (es : List Expr) :
    Eval.Writes names (es.mapM (Item.ofArgument evaluate)) fun _ => True := by
  induction es with
  | nil => exact .pure trivial
  | cons e es ih =>
    have hitem : (Item.ofArgument evaluate e).Writes names fun _ => True := by
      cases e with
      | text span value => exact .pure trivial
      | _ => exact (h _).bind fun _ _ => .pure trivial
    rw [List.mapM_cons]
    exact hitem.bind fun _ _ => ih.bind fun _ _ => .pure trivial

/-- A statement that goes on keeps all names bound. -/
def Flow.Keeps (locals : Bindings) : Flow → Prop
  | .next locals' => locals.KeptIn locals'
  | .leave _ => True

theorem Flow.Keeps.of_next {locals locals' : Bindings} (h : Flow.Keeps locals (.next locals')) :
    ∀ flow, Flow.Keeps locals' flow → Flow.Keeps locals flow
  | .next _, hlater => fun name hname => hlater name (h name hname)
  | .leave _, _ => trivial

theorem writes_executeAll {execute : Bindings → Stmt → Eval Flow}
    (h : ∀ locals s, locals.Covers names s.targets →
      (execute locals s).Writes names (Flow.Keeps locals)) :
    ∀ (ss : List Stmt) (locals : Bindings), locals.Covers names (targetsIn ss) →
      (executeAll execute locals ss).Writes names (Flow.Keeps locals)
  | [], locals, _ => .pure fun _ h => h
  | s :: ss, locals, hcovers => by
    obtain ⟨hhead, htail⟩ := Bindings.covers_append.1 hcovers
    refine (h locals s hhead).bind fun flow hflow => ?_
    cases flow with
    | next locals' => exact (writes_executeAll h ss locals' (htail.keptIn hflow)).imp hflow.of_next
    | leave value => exact .pure trivial

end Lists

/-! ## Programs -/

/-- What is said of all that a program is made of, at some fuel. -/
structure WritesAt (limits : Limits) (names : List String) (fuel : Nat) : Prop where
  evaluate : ∀ live waiting around locals e,
    (Expr.evaluate limits fuel live waiting around locals e).Writes names fun _ => True
  call : ∀ live waiting d locals, locals.Covers names (targetsIn d.body) →
    (Definition.call limits fuel live waiting d locals).Writes names fun _ => True
  execute : ∀ live around locals s, locals.Covers names s.targets →
    (Stmt.execute limits fuel live around locals s).Writes names (Flow.Keeps locals)

namespace WritesAt

variable {limits : Limits} {names : List String} {fuel : Nat}

theorem evaluate_succ (h : WritesAt limits names fuel) (live : List Activation) (waiting : Nat)
    (around : List (List Stmt)) (locals : Bindings) (e : Expr) :
    (Expr.evaluate limits (fuel + 1) live waiting around locals e).Writes names fun _ => True := by
  have hexpr : ∀ waiting e,
      (Expr.evaluate limits fuel live waiting around locals e).Writes names fun _ => True :=
    fun waiting => h.evaluate live waiting around locals
  rw [Expr.evaluate.eq_def]
  dsimp only
  split
  · exact .pure trivial
  · split
    · exact .pure trivial
    · split
      · exact .stuck
      · exact .readGlobal _
  · split
    · refine (writes_evaluateAll hexpr _ _ _).bind fun values _ => ?_
      refine (writes_evaluateAll hexpr _ _ _).bind fun bound _ => ?_
      split
      next hlocals => exact h.call live waiting _ _ (Definition.covers_of_locals? hlocals names)
      next => exact .stuck
    · split
      · refine (writes_ofArguments (hexpr waiting) _).bind fun items _ => ?_
        split
        · exact (Eval.Writes.print _).bind fun _ _ => .pure trivial
        · exact .stuck
      · exact .stuck
  · exact (hexpr _ _).bind fun a _ => (hexpr _ _).bind fun b _ => .ofExcept fun _ => trivial
  · exact (hexpr _ _).bind fun a _ => .pure trivial
  · exact (hexpr _ _).bind fun a _ => (hexpr _ _).bind fun b _ => .pure trivial
  · exact .stuck

theorem call_succ (h : WritesAt limits names fuel) (live : List Activation) (waiting : Nat)
    (d : Definition) (locals : Bindings) (hcovers : locals.Covers names (targetsIn d.body)) :
    (Definition.call limits (fuel + 1) live waiting d locals).Writes names fun _ => True := by
  refine .enter ((writes_executeAll (h.execute _ _) d.body locals hcovers).bind fun flow _ => ?_)
  cases flow with
  | next locals => exact .pure trivial
  | leave value => exact .pure trivial

theorem execute_succ (h : WritesAt limits names fuel) (live : List Activation)
    (around : List (List Stmt)) (locals : Bindings) (s : Stmt) (hcovers : locals.Covers names s.targets) :
    (Stmt.execute limits (fuel + 1) live around locals s).Writes names (Flow.Keeps locals) := by
  have hexpr : ∀ waiting e,
      (Expr.evaluate limits fuel live waiting around locals e).Writes names fun _ => True :=
    fun waiting => h.evaluate live waiting around locals
  have hblock := writes_executeAll (h.execute live around)
  have hsame : locals.KeptIn locals := fun _ h => h
  cases s with
  | define span name params body => exact .pure hsame
  | pass span => exact .pure hsame
  | give span value =>
    cases value with
    | none => exact .pure trivial
    | some value => exact (hexpr 0 value).bind fun _ _ => .pure trivial
  | assign span target value =>
    rw [Stmt.execute]
    by_cases hlocal : (locals.get? target).isSome
    · rw [if_pos hlocal]
      exact (hexpr 0 value).bind fun v _ => .pure (locals.keptIn_set target v)
    · -- A name that is not bound is one of those that may be written.
      have htarget := (hcovers target (List.mem_singleton_self target)).resolve_left hlocal
      rw [if_neg hlocal]
      exact (hexpr 2 value).bind fun v _ => (Eval.Writes.writeGlobal htarget v).bind fun _ _ =>
        .pure hsame
  | eval span value => exact (hexpr 0 value).bind fun _ _ => .pure hsame
  | branch span test body orelse =>
    obtain ⟨hbody, horelse⟩ := Bindings.covers_append.1 hcovers
    refine (hexpr 0 test).bind fun value _ => ?_
    by_cases hvalue : value = 0
    · rw [if_pos hvalue]
      exact hblock orelse locals horelse
    · rw [if_neg hvalue]
      exact hblock body locals hbody
  | loop span test body =>
    refine (hexpr 0 test).bind fun value _ => ?_
    split
    · exact .pure hsame
    · refine (hblock body locals hcovers).bind fun flow hflow => ?_
      cases flow with
      | next locals' =>
        exact (h.execute live around locals' (.loop span test body) (hcovers.keptIn hflow)).imp
          hflow.of_next
      | leave value => exact .pure trivial

/-- The functions of the evaluator call each other with less fuel. -/
theorem all (limits : Limits) (names : List String) (fuel : Nat) : WritesAt limits names fuel := by
  induction fuel with
  | zero =>
    refine ⟨fun _ _ _ _ _ => ?_, fun _ _ _ _ _ => ?_, fun _ _ _ _ _ => ?_⟩
    · rw [Expr.evaluate.eq_def]
      exact .unfinished
    · rw [Definition.call.eq_def]
      exact .unfinished
    · rw [Stmt.execute.eq_def]
      exact .unfinished
  | succ fuel ih => exact ⟨ih.evaluate_succ, ih.call_succ, ih.execute_succ⟩

end WritesAt

/-- A program writes the globals that it assigns outside its definitions, however it ends. -/
theorem Program.writes_meaning (p : Program) (limits : Limits) (fuel : Nat) :
    (p.meaning limits fuel).Writes (targetsIn p) fun _ => True := by
  have hcovers : (∅ : Bindings).Covers (targetsIn p) (targetsIn p) := fun _ h => .inr h
  refine .enter ((writes_executeAll ((WritesAt.all limits _ fuel).execute _ [p]) p ∅ hcovers).bind
    fun flow _ => ?_)
  cases flow with
  | next locals => exact .pure trivial
  | leave value => exact .stuck

end Stampline
