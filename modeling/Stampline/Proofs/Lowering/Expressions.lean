import Stampline.Proofs.Lowering.Emission
import Stampline.Proofs.Lowering.Loaded
import Stampline.Proofs.Lowering.Operators
import Stampline.Proofs.Lowering.Room

/-!
# Expressions and their code

Code of an expression follows the evaluation of the expression: it pushes the value, and it keeps
all slots below the temporaries that it may use. There is one lemma for each rule of `ExprCode`;
calls are taken to follow the evaluation of the body, with the fuel that they may use as a bound.
-/

namespace Stampline

open Wasm (Room Value Config Outcome Ends CallEnds mapInstrs mapInstrs_append)

/-- Within the bound, a call of a function follows the evaluation of the definition. What is below the
arguments waits for the call. -/
def CallsFollow (L : Loaded) (bound : Nat) : Prop :=
  ∀ index f d, L.functions[index]? = some f → Finds L.functions f d →
    ∀ (room : Room) (live : List Activation), room.LeftBy live →
      ∀ (values : List Int64) (b : Bindings) (σ : Store) (below : List Value)
        (slots : Array Value), f.Begins values b →
        CallEnds L.inst bound room (HostFunction.count + index)
          ⟨(values.map Value.i64).reverse ++ below, slots, L.stateAt σ⟩
          (Follows L.base (fun fuel => d.call .engine fuel live below.length b) σ fun v τ o =>
            o = .next ⟨.i64 v :: below, slots, L.stateAt τ⟩)

/-- The item that is printed at a place. -/
def Printed.item? (slots : Array Value) : Printed → Option Item
  | .text value => some (.text value)
  | .slot index =>
    match slots[index]? with
    | some (.i64 v) => some (.number v)
    | _ => none

theorem Item.ofArgument_value {e : Expr} (htext : ∀ span value, e ≠ .text span value)
    (evaluate : Expr → Eval Int64) :
    Item.ofArgument evaluate e = evaluate e >>= fun v => pure (.number v) := by
  cases e with
  | text span value => exact absurd rfl (htext span value)
  | _ => rfl

/-- A place of a program where code runs. -/
structure Spot (L : Loaded) where
  /-- What the code was emitted for. -/
  site : Site
  /-- The blocks around it. -/
  around : List (List Stmt)
  /-- The functions that are live there. -/
  live : List Activation
  /-- The room that the machine has there. -/
  room : Room
  functions_eq : site.functions = L.functions
  stands : Stands L.functions site.scope around
  left : room.LeftBy live

namespace Spot

variable {L : Loaded} (P : Spot L)

/-- The value of an expression, as the evaluation of the program comes to it at a place where operands
wait. -/
def value (waiting : Nat) (b : Bindings) (e : Expr) (fuel : Nat) : Eval Int64 :=
  e.evaluate .engine fuel P.live waiting P.around b

/-- The slots of a frame at a place hold the locals `b`. -/
def Frame (b : Bindings) (m : Nat) (slots : Array Value) : Prop :=
  Framed P.site.locals b m slots

/-- Code whose temporaries begin at the slot `n` ends with `pushed` on the stack, and `post` holds of
the slots then. -/
def Leaves (n : Nat) (stack : List Value) (slots : Array Value) (pushed : List Value)
    (post : Array Value → Prop) (τ : Store) (c : Config) : Prop :=
  ∃ slots', c = ⟨pushed ++ stack, slots', L.stateAt τ⟩ ∧ SameBelow n slots slots' ∧ post slots'

/-- Wherever code with temporaries from `n` up to `m` runs at a place, it follows an evaluation for which
the operands wait that are on the stack, and `pushed` and `post` tell from its value what is on the stack
and in the slots then. -/
def CodeFollows {α : Type} (bound : Nat) (b : Bindings) (n : Nat) (code : List Code) (m : Nat)
    (run : Nat → Nat → Eval α) (pushed : α → List Value) (post : α → Array Value → Prop) : Prop :=
  L.Reads code → P.site.locals.length ≤ n → ∀ σ stack slots, P.Frame b m slots →
    Ends L.inst bound P.room (mapInstrs L.resolve code) ⟨stack, slots, L.stateAt σ⟩
      (Follows L.base (run stack.length) σ fun v τ o => ∃ c, o = .next c ∧
        Leaves (L := L) n stack slots (pushed v) (post v) τ c)

/-- The code of an expression follows its evaluation and pushes the value. -/
def ExprFollows (bound : Nat) (b : Bindings) (e : Expr) (n : Nat) (code : List Code) (m : Nat) :
    Prop :=
  P.CodeFollows bound b n code m (P.value · b e) (fun v => [.i64 v]) fun _ _ => True

/-- The code of arguments follows their evaluation and pushes the values. -/
def ArgsFollow (bound : Nat) (b : Bindings) (es : List Expr) (n : Nat) (code : List Code)
    (m : Nat) : Prop :=
  P.CodeFollows bound b n code m
    (fun waiting fuel => evaluateAll (P.value · b · fuel) 1 waiting es) (fun vs => (vs.map Value.i64).reverse)
    fun vs _ => vs.length = es.length

/-- The code that stores values follows their evaluation, and the temporaries hold the values. -/
def StoredFollow (bound : Nat) (b : Bindings) (es : List Expr) (n : Nat) (code : List Code)
    (temps : List Nat) (m : Nat) : Prop :=
  P.CodeFollows bound b n code m
    (fun waiting fuel => evaluateAll (P.value · b · fuel) 0 waiting es) (fun _ => [])
    fun vs slots => temps.map (slots[·]?) = vs.map fun v => some (.i64 v)

/-- The code that stores what is printed follows the evaluation of the items. -/
def PrintedFollow (bound : Nat) (b : Bindings) (es : List Expr) (n : Nat) (code : List Code)
    (places : List Printed) (m : Nat) : Prop :=
  P.CodeFollows bound b n code m
    (fun waiting fuel => es.mapM (Item.ofArgument fun e => P.value waiting b e fuel)) (fun _ => [])
    fun items slots => places.map (Printed.item? slots) = items.map some

variable {P} {bound : Nat} {b : Bindings} {n k m : Nat} {code rest : List Code}

/-! ## The rules -/

theorem exprFollows_number (span : Option Span) (value : Int64) :
    P.ExprFollows bound b (.number span value) n [.const64 value] n := by
  intro _ _ σ stack slots _
  have hvalue : ∀ fuel, P.value stack.length b (.number span value) (fuel + 1) = pure value :=
    fun _ => by rw [Spot.value, Expr.evaluate]
  exact ends_succ hvalue
    (.const64 (.nil (.done (.pure value) ⟨_, rfl, slots, rfl, .refl n slots, trivial⟩)))

theorem exprFollows_local {span : Option Span} {id : String} {slot : Nat}
    (hid : P.site.locals.idxOf? id = some slot) :
    P.ExprFollows bound b (.name span id) n [.localGet slot] n := by
  intro _ _ σ stack slots hframe
  obtain ⟨v, hv, hslot⟩ := hframe.holds id slot hid
  have hvalue : ∀ fuel, P.value stack.length b (.name span id) (fuel + 1) = pure v :=
    fun _ => by simp only [Spot.value, Expr.evaluate, hv]
  exact ends_succ hvalue
    (.localGet hslot (.nil (.done (.pure v) ⟨_, rfl, slots, rfl, .refl n slots, trivial⟩)))

theorem exprFollows_global {span : Option Span} {id : String}
    (hid : P.site.locals.idxOf? id = none) (hfun : P.site.scope.resolve? id = none) :
    P.ExprFollows bound b (.name span id) n
      (pushText id ++ [.call HostFunction.readGlobal.index]) n := by
  intro hreads _ σ stack slots hframe
  have hvalue : ∀ fuel, P.value stack.length b (.name span id) (fuel + 1) = .readGlobal id := fun _ => by
    simp [Spot.value, Expr.evaluate, hframe.free id hid, P.stands.definition?_eq_none hfun]
  rw [mapInstrs_append]
  refine ends_succ hvalue (Loaded.ends_pushText (Loaded.ends_readGlobal
    (Loaded.reads_pushText (Loaded.reads_append.1 hreads).1) (fun hnone => ?_) fun v hv => ?_))
  · refine .fault (.of_eq fun _ => ?_)
    have : σ.globals.get? id = none := hnone
    simp [Eval.readGlobal, this]
  · refine .nil (.done (.of_eq fun _ => ?_) ⟨_, rfl, slots, rfl, .refl n slots, trivial⟩)
    have : σ.globals.get? id = some v := hv
    simp [Eval.readGlobal, this]

/-- Code of two operands and of what is made of their values. The first one waits for the second. -/
theorem exprFollows_operands {e left right : Expr} {leftCode rightCode opCode : List Code}
    {apply : Int64 → Int64 → Eval Int64} (hnk : n ≤ k) (hkm : k ≤ m)
    (he : ∀ waiting fuel, P.value waiting b e (fuel + 1) = (do
      let a ← P.value waiting b left fuel
      let a' ← P.value (waiting + 1) b right fuel
      apply a a'))
    (hleft : P.ExprFollows bound b left n leftCode k)
    (hright : P.ExprFollows bound b right k rightCode m)
    (hop : ∀ a a' τ stack slots, Ends L.inst bound P.room (mapInstrs L.resolve opCode)
      ⟨.i64 a' :: .i64 a :: stack, slots, L.stateAt τ⟩
      (Follows L.base (fun _ => apply a a') τ fun v τ' o =>
        o = .next ⟨.i64 v :: stack, slots, L.stateAt τ'⟩)) :
    P.ExprFollows bound b e n (leftCode ++ rightCode ++ opCode) m := by
  intro hreads hn σ stack slots hframe
  obtain ⟨⟨hreadsLeft, hreadsRight⟩, -⟩ : (_ ∧ _) ∧ _ := by
    simpa only [Loaded.reads_append] using hreads
  rw [mapInstrs_append, mapInstrs_append, List.append_assoc]
  refine ends_succ (he stack.length) ?_
  refine ends_bind (hleft hreadsLeft hn σ stack slots (hframe.of_le hkm)) ?_
  rintro a τ _ ⟨slots₁, rfl, hsame₁, -⟩
  refine ends_bind (hright hreadsRight (by omega) τ _ slots₁ (hframe.of_sameBelow hsame₁ hn)) ?_
  rintro a' τ' _ ⟨slots₂, rfl, hsame₂, -⟩
  refine (hop a a' τ' stack slots₂).imp fun o ho => ho.imp ?_
  rintro v υ rfl
  exact ⟨_, rfl, slots₂, rfl, hsame₁.trans hsame₂ hnk, trivial⟩

theorem exprFollows_binary {left right : Expr} {leftCode rightCode : List Code}
    {span : Option Span} {op : BinaryOp} (hnk : n ≤ k) (hkm : k ≤ m)
    (hleft : P.ExprFollows bound b left n leftCode k)
    (hright : P.ExprFollows bound b right k rightCode m) :
    P.ExprFollows bound b (.binary span op left right) n (leftCode ++ rightCode ++ [op.code]) m := by
  refine exprFollows_operands hnk hkm (fun _ _ => by rw [value, Expr.evaluate]; rfl) hleft hright
    fun a a' τ stack slots => ?_
  have happly := op.apply_word a a' stack
  rw [op.code_eq]
  cases hv : op.apply a a' with
  | error f =>
    rw [hv] at happly
    exact .numeric_fault happly (.fault (.of_eq fun _ => rfl))
  | ok v =>
    rw [hv] at happly
    exact .numeric happly (.nil (.done (.pure v) rfl))

theorem exprFollows_compare {left right : Expr} {leftCode rightCode : List Code}
    {span : Option Span} {op : Comparison} (hnk : n ≤ k) (hkm : k ≤ m)
    (hleft : P.ExprFollows bound b left n leftCode k)
    (hright : P.ExprFollows bound b right k rightCode m) :
    P.ExprFollows bound b (.compare span op left right) n
      (leftCode ++ rightCode ++ [op.code, .numeric (.extend false)]) m := by
  refine exprFollows_operands hnk hkm (fun _ _ => by rw [value, Expr.evaluate]; rfl) hleft hright
    fun a a' τ stack slots => ?_
  rw [op.code_eq]
  exact .numeric (op.apply_word a a' stack)
    (.numeric (apply_extend _ stack) (.nil (.done (.pure _) rfl)))

theorem exprFollows_negate {operand : Expr} {span : Option Span}
    (hoperand : P.ExprFollows bound b operand n code m) :
    P.ExprFollows bound b (.negate span operand) n
      (.const64 0 :: code ++ [BinaryOp.code .sub]) m := by
  intro hreads hn σ stack slots hframe
  have hvalue : ∀ fuel, P.value stack.length b (.negate span operand) (fuel + 1) =
      P.value (stack.length + 1) b operand fuel >>= fun a => pure (wrap (-a.toInt)) :=
    fun _ => by rw [value, Expr.evaluate]; rfl
  have hreads : L.Reads (.const64 0 :: code) := (Loaded.reads_append.1 hreads).1
  rw [List.cons_append]
  refine .const64 ?_
  rw [mapInstrs_append]
  refine ends_succ hvalue (ends_bind (hoperand hreads hn σ _ slots hframe) ?_)
  rintro a τ _ ⟨slots', rfl, hsame, -⟩
  exact .numeric (apply_negate a stack)
    (.nil (.done (.pure _) ⟨_, rfl, slots', rfl, hsame, trivial⟩))

/-! ## Lists of expressions -/

theorem argsFollow_nil : P.ArgsFollow bound b [] n [] n := by
  intro _ _ σ stack slots _
  exact .nil (.done (.pure []) ⟨_, rfl, slots, rfl, .refl n slots, rfl⟩)

theorem argsFollow_cons {e : Expr} {es : List Expr} (hnk : n ≤ k) (hkm : k ≤ m)
    (hhead : P.ExprFollows bound b e n code k) (htail : P.ArgsFollow bound b es k rest m) :
    P.ArgsFollow bound b (e :: es) n (code ++ rest) m := by
  intro hreads hn σ stack slots hframe
  obtain ⟨hreadsHead, hreadsTail⟩ := Loaded.reads_append.1 hreads
  simp only [mapInstrs_append, evaluateAll]
  refine ends_bind (hhead hreadsHead hn σ stack slots (hframe.of_le hkm)) ?_
  rintro v τ _ ⟨slots₁, rfl, hsame₁, -⟩
  refine (htail hreadsTail (by omega) τ _ slots₁ (hframe.of_sameBelow hsame₁ hn)).imp
    fun o ho => ?_
  refine ho.of_reaches (fun _ _ => Reaches.bind_fault) ?_
  rintro vs υ hvs ⟨_, rfl, slots₂, rfl, hsame₂, hlength⟩
  exact .done (hvs.bind (.pure _))
    ⟨_, rfl, slots₂, by simp, hsame₁.trans hsame₂ hnk, by simp [hlength]⟩

/-- Code that evaluates an expression into the temporary `k`, and what comes behind it. -/
theorem ends_store {α : Type} {e : Expr} {second : Nat → Int64 → Eval α}
    {post : α → Store → Outcome → Prop} {σ : Store} {stack : List Value} {slots : Array Value}
    (hhead : P.ExprFollows bound b e n code k) (hreads : L.Reads (code ++ .localSet k :: rest))
    (hn : P.site.locals.length ≤ n) (hnk : n ≤ k) (hkm : k + 1 ≤ m) (hframe : P.Frame b m slots)
    (hrest : L.Reads rest → ∀ v τ slots', SameBelow n slots slots' → slots'[k]? = some (.i64 v) →
      P.Frame b m slots' → Ends L.inst bound P.room (mapInstrs L.resolve rest)
        ⟨stack, slots', L.stateAt τ⟩ (Follows L.base (second · v) τ post)) :
    Ends L.inst bound P.room (mapInstrs L.resolve (code ++ .localSet k :: rest))
      ⟨stack, slots, L.stateAt σ⟩
      (Follows L.base (fun fuel => P.value stack.length b e fuel >>= second fuel) σ post) := by
  obtain ⟨hreadsHead, hreadsRest⟩ := Loaded.reads_append.1 hreads
  rw [mapInstrs_append]
  refine ends_bind (hhead hreadsHead hn σ stack slots (hframe.of_le (by omega))) ?_
  rintro v τ _ ⟨slots₁, rfl, hsame₁, -⟩
  have hsize : k < slots₁.size := by
    have := hframe.size
    have := hsame₁.size
    omega
  have hsame₂ := SameBelow.set k (.i64 v) hnk slots₁
  exact .localSet hsize (hrest hreadsRest v τ _ (hsame₁.trans hsame₂ (Nat.le_refl n))
    (Array.getElem?_setIfInBounds_self_of_lt hsize)
    ((hframe.of_sameBelow hsame₁ hn).of_sameBelow hsame₂ hn))

theorem storedFollow_nil : P.StoredFollow bound b [] n [] [] n := by
  intro _ _ σ stack slots _
  exact .nil (.done (.pure []) ⟨_, rfl, slots, rfl, .refl n slots, rfl⟩)

theorem storedFollow_cons {e : Expr} {es : List Expr} {temps : List Nat} (hnk : n ≤ k)
    (hkm : k + 1 ≤ m) (hhead : P.ExprFollows bound b e n code k)
    (htail : P.StoredFollow bound b es (k + 1) rest temps m) :
    P.StoredFollow bound b (e :: es) n (code ++ .localSet k :: rest) (k :: temps) m := by
  intro hreads hn σ stack slots hframe
  simp only [evaluateAll]
  refine ends_store hhead hreads hn hnk hkm hframe fun hreads v τ slots₁ hsame₁ hk hframe₁ => ?_
  refine (htail hreads (by omega) τ stack slots₁ hframe₁).imp fun o ho => ?_
  refine ho.of_reaches (fun _ _ => Reaches.bind_fault) ?_
  rintro vs υ hvs ⟨_, rfl, slots₂, rfl, hsame₂, htemps⟩
  refine .done (hvs.bind (.pure _)) ⟨_, rfl, slots₂, rfl, hsame₁.trans hsame₂ (by omega), ?_⟩
  show (k :: temps).map (slots₂[·]?) = _
  rw [List.map_cons, List.map_cons, htemps, hsame₂.slots k (by omega), hk]

theorem printedFollow_nil : P.PrintedFollow bound b [] n [] [] n := by
  intro _ _ σ stack slots _
  exact .nil (.done (.pure []) ⟨_, rfl, slots, rfl, .refl n slots, rfl⟩)

theorem printedFollow_text {span : Option Span} {value : String} {es : List Expr}
    {places : List Printed} (htail : P.PrintedFollow bound b es n code places m) :
    P.PrintedFollow bound b (.text span value :: es) n code (.text value :: places) m := by
  intro hreads hn σ stack slots hframe
  simp only [List.mapM_cons, Item.ofArgument, pure_bind]
  refine (htail hreads hn σ stack slots hframe).imp fun o ho => ?_
  refine ho.of_reaches (fun _ _ => Reaches.bind_fault) ?_
  rintro items υ hitems ⟨_, rfl, slots', rfl, hsame, hplaces⟩
  refine .done (hitems.bind (.pure _)) ⟨_, rfl, slots', rfl, hsame, ?_⟩
  show (Printed.text value :: places).map (Printed.item? slots') = _
  rw [List.map_cons, List.map_cons, hplaces, Printed.item?]

theorem printedFollow_value {e : Expr} {es : List Expr} {places : List Printed}
    (htext : ∀ span value, e ≠ .text span value) (hnk : n ≤ k) (hkm : k + 1 ≤ m)
    (hhead : P.ExprFollows bound b e n code k)
    (htail : P.PrintedFollow bound b es (k + 1) rest places m) :
    P.PrintedFollow bound b (e :: es) n (code ++ .localSet k :: rest) (.slot k :: places) m := by
  intro hreads hn σ stack slots hframe
  simp only [List.mapM_cons, Item.ofArgument_value htext, bind_assoc, pure_bind]
  refine ends_store hhead hreads hn hnk hkm hframe fun hreads v τ slots₁ hsame₁ hk hframe₁ => ?_
  refine (htail hreads (by omega) τ stack slots₁ hframe₁).imp fun o ho => ?_
  refine ho.of_reaches (fun _ _ => Reaches.bind_fault) ?_
  rintro items υ hitems ⟨_, rfl, slots₂, rfl, hsame₂, hplaces⟩
  refine .done (hitems.bind (.pure _)) ⟨_, rfl, slots₂, rfl, hsame₁.trans hsame₂ (by omega), ?_⟩
  have hk₂ := (hsame₂.slots k (by omega)).trans hk
  show (Printed.slot k :: places).map (Printed.item? slots₂) = _
  rw [List.map_cons, List.map_cons, hplaces]
  simp only [Printed.item?, hk₂]

/-! ## Calls -/

variable {span s : Option Span} {id : String} {args : List Expr} {keywords : List Keyword}
  {index : Nat} {f : Function} {d : Definition} {positions : List Nat}

theorem value_call (hd : definition? id P.around = some d) (waiting fuel : Nat) :
    P.value waiting b (.call span (.name s id) args keywords) (fuel + 1) = (do
      let values ← evaluateAll (P.value · b · fuel) (if keywords.isEmpty then 1 else 0) waiting args
      let bound ← evaluateAll (P.value · b · fuel) 0 waiting (keywords.map Keyword.value)
      match d.locals? values ((keywords.map Keyword.name).zip bound) with
      | some locals => d.call .engine fuel P.live waiting locals
      | none => .stuck) := by
  rw [value, Expr.evaluate, hd]
  rfl

/-- A call whose arguments are on the stack in the order of the parameters. -/
theorem ends_boundCall (hcalls : CallsFollow L bound) (hf : L.functions[index]? = some f)
    (hd : Finds L.functions f d) (hbinds : BindsAll f args.length keywords positions)
    {values bound' : List Int64} (hvalues : values.length = args.length)
    (hbound : bound'.length = keywords.length) (τ : Store) (stack : List Value)
    (slots : Array Value) :
    Ends L.inst bound P.room [.call (HostFunction.count + index)]
      ⟨((boundValues f.params.length positions (values ++ bound')).map Value.i64).reverse ++ stack,
        slots, L.stateAt τ⟩
      (Follows L.base (fun fuel =>
        match d.locals? values ((keywords.map Keyword.name).zip bound') with
        | some locals => d.call .engine fuel P.live stack.length locals
        | none => .stuck) τ fun v υ o => o = .next ⟨.i64 v :: stack, slots, L.stateAt υ⟩) := by
  obtain ⟨locals, hlocals, hbegins⟩ := hbinds.begins
    (L.nodup_params f (List.mem_of_getElem? hf)) hd hvalues hbound
  simp only [hlocals]
  exact .call ((hcalls index f d hf hd P.room P.live P.left _ locals τ stack slots
    hbegins).imp fun _ => Outcome.orElse_nil)

theorem exprFollows_call (hcalls : CallsFollow L bound)
    (hfun : P.site.scope.resolve? id = some index) (hf : P.site.functions[index]? = some f)
    (hbind : bindArguments span f args.length [] = .ok positions)
    (hargs : P.ArgsFollow bound b args n code m) :
    P.ExprFollows bound b (.call span (.name s id) args []) n
      (code ++ [.call (HostFunction.count + index)]) m := by
  intro hreads hn σ stack slots hframe
  rw [P.functions_eq] at hf
  obtain ⟨d, hd, hfinds⟩ := P.stands.definition?_eq_some hfun hf
  have hbinds := bindArguments_eq_ok hbind
  rw [mapInstrs_append]
  refine ends_succ (value_call hd stack.length) ?_
  refine ends_bind (hargs (Loaded.reads_append.1 hreads).1 hn σ stack slots hframe) ?_
  rintro values τ _ ⟨slots', rfl, hsame, hvalues⟩
  have hall : values.length = f.params.length := by
    have := hbinds.length_positions
    rw [hbinds.in_order rfl, List.length_range] at this
    simpa [hvalues] using this.symm
  have hordered : boundValues f.params.length positions (values ++ []) = values := by
    rw [List.append_nil, hbinds.in_order rfl, boundValues_range hall]
  have hcall := ends_boundCall (P := P) hcalls hf hfinds hbinds hvalues
    (show ([] : List Int64).length = _ from rfl) τ stack slots'
  rw [hordered] at hcall
  refine hcall.imp fun o ho => .bind (.pure []) (ho.imp ?_)
  rintro v υ rfl
  exact ⟨_, rfl, slots', rfl, hsame, trivial⟩

theorem ends_pushSlots {slotOf : Nat → Nat} {valueOf : Nat → Int64} {slots : Array Value}
    {st : Wasm.State} {is : List (Wasm.Instr UInt32)} {post : Outcome → Prop} :
    ∀ (ps : List Nat) (stack : List Value),
      (∀ p ∈ ps, slots[slotOf p]? = some (.i64 (valueOf p))) →
      Ends L.inst bound P.room is ⟨((ps.map valueOf).map Value.i64).reverse ++ stack, slots, st⟩
        post →
      Ends L.inst bound P.room
        (mapInstrs L.resolve (ps.map fun p => .localGet (slotOf p)) ++ is) ⟨stack, slots, st⟩ post
  | [], stack, _, h => h
  | p :: ps, stack, hps, h => by
    refine .localGet (hps p (by simp)) (ends_pushSlots ps _ (fun q hq => hps q (by simp [hq])) ?_)
    simpa using h

theorem exprFollows_callBound {temps keywordTemps : List Nat} {keywordCode : List Code}
    (hcalls : CallsFollow L bound) (hfun : P.site.scope.resolve? id = some index)
    (hf : P.site.functions[index]? = some f) (hne : keywords ≠ [])
    (hbind : bindArguments span f args.length keywords = .ok positions) (hnk : n ≤ k)
    (hkm : k ≤ m) (htemps : ∀ t ∈ temps, t < k) (hlength : temps.length = args.length)
    (hkeywordLength : keywordTemps.length = keywords.length)
    (hargs : P.StoredFollow bound b args n code temps k)
    (hkeywords : P.StoredFollow bound b (keywords.map Keyword.value) k keywordCode keywordTemps m) :
    P.ExprFollows bound b (.call span (.name s id) args keywords) n
      (code ++ keywordCode ++ pushBound f.params.length positions (temps ++ keywordTemps) ++
        [.call (HostFunction.count + index)]) m := by
  intro hreads hn σ stack slots hframe
  rw [P.functions_eq] at hf
  obtain ⟨d, hd, hfinds⟩ := P.stands.definition?_eq_some hfun hf
  have hbinds := bindArguments_eq_ok hbind
  obtain ⟨⟨⟨hreadsArgs, hreadsKeywords⟩, -⟩, -⟩ : ((_ ∧ _) ∧ _) ∧ _ := by
    simpa only [Loaded.reads_append] using hreads
  simp only [mapInstrs_append, List.append_assoc]
  -- Nothing waits for the arguments that come behind, as all of them are put aside.
  have hkept : (if keywords.isEmpty then 1 else 0) = 0 := if_neg (by simpa using hne)
  refine ends_succ (fun fuel => by rw [value_call hd, hkept]) ?_
  refine ends_bind (hargs hreadsArgs hn σ stack slots (hframe.of_le hkm)) ?_
  rintro values τ _ ⟨slots₁, rfl, hsame₁, hvalues⟩
  refine ends_bind (hkeywords hreadsKeywords (by omega) τ stack slots₁
    (hframe.of_sameBelow hsame₁ hn)) ?_
  rintro bound' τ' _ ⟨slots₂, rfl, hsame₂, hbound⟩
  have hcount := congrArg List.length hvalues
  have hkeywordCount := congrArg List.length hbound
  rw [List.length_map, List.length_map] at hcount hkeywordCount
  -- the second code keeps the temporaries of the first
  have hall : (temps ++ keywordTemps).map (slots₂[·]?) =
      (values ++ bound').map fun v => some (.i64 v) := by
    rw [List.map_append, List.map_append, ← hbound, ← hvalues]
    congr 1
    exact List.map_congr_left fun t ht => hsame₂.slots t (htemps t ht)
  have hslots : ∀ p ∈ List.range f.params.length,
      slots₂[((positions.zip (temps ++ keywordTemps)).lookup p).getD 0]? =
        some (.i64 (((positions.zip (values ++ bound')).lookup p).getD 0)) := by
    intro p hp
    obtain ⟨j, hj⟩ := List.mem_iff_getElem?.1 (hbinds.perm.mem_iff.2 hp)
    have hnodup := hbinds.perm.symm.nodup List.nodup_range
    have hlt : j < args.length + keywords.length := by
      have := (List.getElem?_eq_some_iff.1 hj).1
      rwa [hbinds.length_positions] at this
    rw [lookup_zip _ hnodup hj, lookup_zip _ hnodup hj]
    have hat := congrArg (·[j]?) hall
    simp only [List.getElem?_map] at hat
    rw [List.getElem?_eq_getElem (by simp; omega), List.getElem?_eq_getElem (by simp; omega)] at hat ⊢
    simpa using hat
  refine ends_pushSlots _ stack hslots ?_
  refine (ends_boundCall hcalls hf hfinds hbinds (by omega) (by omega) τ' stack slots₂).imp
    fun o ho => ho.imp ?_
  rintro v υ rfl
  exact ⟨_, rfl, slots₂, rfl, hsame₁.trans hsame₂ hnk, trivial⟩

/-! ## Printing -/

theorem write_write (env : Environment) (a c : String) :
    (env.write a).write c = env.write (a ++ c) := by
  simp [Environment.write, String.append_assoc]

theorem write_after (base : Environment) (σ : Store) (p : Printout) :
    (base.after σ).write p.print = base.after { σ with printed := σ.printed ++ [p] } := by
  simp [Environment.write, Environment.after, Store.print, String.join_append,
    String.append_assoc, String.join_cons]

section Printing

variable {stack : List Value} {slots : Array Value} {is : List (Wasm.Instr UInt32)}
  {post : Outcome → Prop} {room : Room}

theorem ends_place {place : Printed} {item : Item} {env : Environment}
    (hitem : place.item? slots = some item) (hreads : L.Reads place.code)
    (h : Ends L.inst bound room is ⟨stack, slots, L.inEnv (env.write item.print)⟩ post) :
    Ends L.inst bound room (mapInstrs L.resolve place.code ++ is) ⟨stack, slots, L.inEnv env⟩
      post := by
  cases place with
  | text value =>
    obtain rfl := Option.some.inj hitem
    exact Loaded.ends_printText hreads h
  | slot index =>
    simp only [Printed.item?] at hitem
    split at hitem
    · rename_i v hv
      obtain rfl := Option.some.inj hitem
      exact .localGet hv (Loaded.ends_printInt h)
    · simp at hitem

theorem ends_places {separator : String} : ∀ {places : List Printed} {items : List Item}
    {env : Environment}, places.map (Printed.item? slots) = items.map some →
      L.Reads ((places.map Printed.code).intersperse (printText separator)).flatten →
      Ends L.inst bound room is
        ⟨stack, slots, L.inEnv (env.write (separator.intercalate (items.map Item.print)))⟩ post →
      Ends L.inst bound room
        (mapInstrs L.resolve
          ((places.map Printed.code).intersperse (printText separator)).flatten ++ is)
        ⟨stack, slots, L.inEnv env⟩ post
  | [], [], env, _, _, h => by simpa [Environment.write, mapInstrs] using h
  | [], _ :: _, _, hitems, _, _ => by simp at hitems
  | _ :: _, [], _, hitems, _, _ => by simp at hitems
  | [place], [item], env, hitems, hreads, h => by
    simp only [List.map_cons, List.map_nil, List.intersperse_singleton, List.flatten_cons,
      List.flatten_nil, List.append_nil, String.intercalate_singleton, List.cons.injEq,
      and_true] at hitems hreads h ⊢
    exact ends_place hitems hreads h
  | [_], _ :: _ :: _, _, hitems, _, _ => by simp at hitems
  | _ :: _ :: _, [_], _, hitems, _, _ => by simp at hitems
  | place :: place' :: places, item :: item' :: items, env, hitems, hreads, h => by
    simp only [List.map_cons, List.cons.injEq] at hitems
    simp only [List.map_cons, List.intersperse_cons_cons, List.flatten_cons,
      Loaded.reads_append] at hreads
    simp only [List.map_cons, String.intercalate_cons_cons] at h
    simp only [List.map_cons, List.intersperse_cons_cons, List.flatten_cons, mapInstrs_append,
      List.append_assoc]
    refine ends_place hitems.1 hreads.1 (Loaded.ends_printText hreads.2.1 ?_)
    have hrest : (place' :: places).map (Printed.item? slots) = (item' :: items).map some := by
      simpa using hitems.2
    refine ends_places hrest hreads.2.2 ?_
    simpa only [write_write, List.map_cons, String.append_assoc] using h

theorem ends_printCode {separator terminator : String} {places : List Printed}
    {items : List Item} {env : Environment}
    (hitems : places.map (Printed.item? slots) = items.map some)
    (hreads : L.Reads (printCode separator terminator places))
    (h : Ends L.inst bound room is
      ⟨stack, slots, L.inEnv (env.write (Printout.print ⟨items, separator, terminator⟩))⟩ post) :
    Ends L.inst bound room (mapInstrs L.resolve (printCode separator terminator places) ++ is)
      ⟨stack, slots, L.inEnv env⟩ post := by
  obtain ⟨hreadsPlaces, hreadsEnd⟩ := Loaded.reads_append.1 hreads
  rw [printCode, mapInstrs_append, List.append_assoc]
  refine ends_places hitems hreadsPlaces (Loaded.ends_printText hreadsEnd ?_)
  rw [write_write]
  exact h

end Printing

theorem withOptions?_of_printOptions {items : List Item} : ∀ {keywords : List Keyword}
    {separator terminator separator' terminator' : String},
    printOptions keywords separator terminator = .ok (separator', terminator') →
      Printout.withOptions? ⟨items, separator, terminator⟩ keywords =
        some ⟨items, separator', terminator'⟩
  | [], _, _, _, _, h => by
    simp only [printOptions, Except.ok.injEq, Prod.mk.injEq] at h
    obtain ⟨rfl, rfl⟩ := h
    rfl
  | .mk span name value :: ks, separator, terminator, _, _, h => by
    cases value with
    | text s value =>
      simp only [printOptions] at h
      rw [Printout.withOptions?]
      split at h
      · rw [if_pos ‹_›]
        exact withOptions?_of_printOptions h
      · split at h
        · rw [if_neg ‹_›, if_pos ‹_›]
          exact withOptions?_of_printOptions h
        · simp at h
    | _ => simp [printOptions] at h

theorem exprFollows_print {places : List Printed} {separator terminator : String}
    (hfun : P.site.scope.resolve? printName = none)
    (hoptions : printOptions keywords " " "\n" = .ok (separator, terminator))
    (hargs : P.PrintedFollow bound b args n code places m) :
    P.ExprFollows bound b (.call span (.name s printName) args keywords) n
      (code ++ printCode separator terminator places ++ [.const64 0]) m := by
  intro hreads hn σ stack slots hframe
  obtain ⟨⟨hreadsArgs, hreadsPrint⟩, -⟩ : (_ ∧ _) ∧ _ := by
    simpa only [Loaded.reads_append] using hreads
  have hvalue : ∀ fuel, P.value stack.length b (.call span (.name s printName) args keywords)
      (fuel + 1) = (do
      let items ← args.mapM (Item.ofArgument fun e => P.value stack.length b e fuel)
      Eval.print ⟨items, separator, terminator⟩
      return 0) := by
    intro fuel
    simp only [value, Expr.evaluate, P.stands.definition?_eq_none hfun, if_true]
    refine bind_congr fun items => ?_
    rw [withOptions?_of_printOptions hoptions]
  simp only [mapInstrs_append, List.append_assoc]
  refine ends_succ hvalue (ends_bind (hargs hreadsArgs hn σ stack slots hframe) ?_)
  rintro items τ _ ⟨slots', rfl, hsame, hitems⟩
  refine ends_printCode hitems hreadsPrint (.const64 (.nil (.done (.of_eq fun _ => rfl)
    ⟨_, rfl, slots', ?_, hsame, trivial⟩)))
  rw [write_after]
  rfl

/-! ## All expressions -/

mutual

/-- Code of an expression follows its evaluation. -/
theorem exprFollows (hcalls : CallsFollow L bound) {e : Expr} {n m : Nat} {code : List Code} :
    ExprCode P.site e n code m → P.ExprFollows bound b e n code m
  | .number => exprFollows_number _ _
  | .local hid => exprFollows_local hid
  | .global hid hfun => exprFollows_global hid hfun
  | .call hfun hf hbind hargs => exprFollows_call hcalls hfun hf hbind (argsFollow hcalls hargs)
  | .callBound hfun hf hne hbind hargs hvalues =>
    exprFollows_callBound hcalls hfun hf hne hbind hargs.slots_le hvalues.slots_le hargs.temps_lt
      hargs.length_temps (by simpa using hvalues.length_temps) (storedFollow hcalls hargs)
      (storedFollow hcalls hvalues)
  | .print hfun hoptions hargs => exprFollows_print hfun hoptions (printedFollow hcalls hargs)
  | .binary hleft hright =>
    exprFollows_binary hleft.slots_le hright.slots_le (exprFollows hcalls hleft) (exprFollows hcalls hright)
  | .negate hoperand => exprFollows_negate (exprFollows hcalls hoperand)
  | .compare hleft hright =>
    exprFollows_compare hleft.slots_le hright.slots_le (exprFollows hcalls hleft) (exprFollows hcalls hright)

theorem argsFollow (hcalls : CallsFollow L bound) {es : List Expr} {n m : Nat} {code : List Code} :
    ArgsCode P.site es n code m → P.ArgsFollow bound b es n code m
  | .nil => argsFollow_nil
  | .cons hhead htail =>
    argsFollow_cons hhead.slots_le htail.slots_le (exprFollows hcalls hhead) (argsFollow hcalls htail)

theorem storedFollow (hcalls : CallsFollow L bound) {es : List Expr} {n m : Nat} {code : List Code}
    {temps : List Nat} :
    StoredCode P.site es n code temps m → P.StoredFollow bound b es n code temps m
  | .nil => storedFollow_nil
  | .cons hhead htail =>
    storedFollow_cons hhead.slots_le htail.slots_le (exprFollows hcalls hhead) (storedFollow hcalls htail)

theorem printedFollow (hcalls : CallsFollow L bound) {es : List Expr} {n m : Nat} {code : List Code}
    {places : List Printed} :
    PrintedCode P.site es n code places m → P.PrintedFollow bound b es n code places m
  | .nil => printedFollow_nil
  | .text htail => printedFollow_text (printedFollow hcalls htail)
  | .value htext hhead htail =>
    printedFollow_value htext hhead.slots_le htail.slots_le (exprFollows hcalls hhead)
      (printedFollow hcalls htail)

end

end Spot

end Stampline
