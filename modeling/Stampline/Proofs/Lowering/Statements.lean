import Stampline.Proofs.Lowering.Expressions

/-!
# Statements and their code

Code of a statement follows its execution: it goes on where the statement does, with slots that hold
the locals it has then, and it leaves the function with the value that the statement leaves it with.
A round of a loop is a round of the machine's loop. Calls follow from bodies by induction on the
fuel of the machine.
-/

namespace Stampline

open Wasm (Room Value Config Outcome Ends CallEnds Round leaveBlock mapInstrs mapInstrs_append
  mapInstrs_round)

namespace Spot

variable {L : Loaded} (P : Spot L)

/-- The execution of a statement at a place. -/
def flow (b : Bindings) (s : Stmt) (fuel : Nat) : Eval Flow :=
  s.execute .engine fuel P.live P.around b

/-- The execution of a block at a place. -/
def blockFlow (b : Bindings) (ss : List Stmt) (fuel : Nat) : Eval Flow :=
  executeAll (fun b s => s.execute .engine fuel P.live P.around b) b ss

/-- The outcome of code whose execution goes on as a flow says, with a frame of `size` slots. Only
functions are left. -/
def FlowsTo (size : Nat) : Flow → Store → Outcome → Prop
  | .next b, τ, o => ∃ slots, o = .next ⟨[], slots, L.stateAt τ⟩ ∧ P.Frame b size slots
  | .leave v, τ, o => P.site.inFunction = true ∧
      ∃ stack slots, o = .leave ⟨.i64 v :: stack, slots, L.stateAt τ⟩

/-- Wherever code runs in a frame with enough slots, it follows the execution `run`. -/
def RunFollows (bound : Nat) (run : Bindings → Nat → Eval Flow) (n : Nat) (code : List Code)
    (m : Nat) : Prop :=
  L.Reads code → P.site.locals.length ≤ n → ∀ b size σ slots, P.Frame b size slots → m ≤ size →
    Ends L.inst bound P.room (mapInstrs L.resolve code) ⟨[], slots, L.stateAt σ⟩
      (Follows L.base (run b) σ (P.FlowsTo size))

/-- The code of a statement follows its execution. -/
def StmtFollows (bound : Nat) (s : Stmt) (n : Nat) (code : List Code) (m : Nat) : Prop :=
  P.RunFollows bound (P.flow · s) n code m

/-- The code of a block follows its execution. -/
def BlockFollows (bound : Nat) (ss : List Stmt) (n : Nat) (code : List Code) (m : Nat) : Prop :=
  P.RunFollows bound (P.blockFlow · ss) n code m

/-- What comes behind a statement, unless it leaves the function. -/
def andThen (rest : Bindings → Nat → Eval Flow) (fuel : Nat) : Flow → Eval Flow
  | .next b => rest b fuel
  | .leave v => pure (.leave v)

theorem blockFlow_cons (b : Bindings) (s : Stmt) (ss : List Stmt) (fuel : Nat) :
    P.blockFlow b (s :: ss) fuel = P.flow b s fuel >>= andThen (P.blockFlow · ss) fuel := by
  rw [blockFlow, executeAll]
  refine bind_congr fun flow => ?_
  cases flow <;> rfl

variable {P} {bound : Nat} {n k l m : Nat} {code : List Code} {span : Option Span}

/-- A block that is left by no branch is left as it ends. -/
theorem leaveBlock_of_follows {run : Nat → Eval Flow} {σ : Store} {size : Nat} {o : Outcome}
    (h : Follows L.base run σ (P.FlowsTo size) o) : leaveBlock 0 [] o = o := by
  rcases h with ⟨f, τ, -, rfl⟩ | ⟨v, τ, -, hv⟩
  · rfl
  · cases v with
    | next b =>
      obtain ⟨slots, rfl, -⟩ := hv
      rfl
    | leave v =>
      obtain ⟨-, stack, slots, rfl⟩ := hv
      rfl

/-! ## The rules -/

/-- Code that consists of the code of an expression and of what is made of its value. -/
theorem runFollows_value {value : Expr} {rest : List Code} {run : Bindings → Nat → Eval Flow}
    {second : Bindings → Nat → Int64 → Eval Flow}
    (hrun : ∀ b fuel, run b (fuel + 1) = P.value 0 b value fuel >>= second b fuel)
    (hvalue : ∀ b, P.ExprFollows bound b value n code k) (hkm : k ≤ m)
    (hrest : L.Reads rest → P.site.locals.length ≤ k → ∀ b size σ slots v, P.Frame b size slots →
      m ≤ size → Ends L.inst bound P.room (mapInstrs L.resolve rest)
        ⟨[.i64 v], slots, L.stateAt σ⟩ (Follows L.base (second b · v) σ (P.FlowsTo size)))
    (hnk : n ≤ k) :
    P.RunFollows bound run n (code ++ rest) m := by
  intro hreads hn b size σ slots hframe hsize
  obtain ⟨hreadsValue, hreadsRest⟩ := Loaded.reads_append.1 hreads
  rw [mapInstrs_append]
  refine ends_succ (hrun b)
    (ends_bind (hvalue b hreadsValue hn σ [] slots (hframe.of_le (by omega))) ?_)
  rintro v τ _ ⟨slots', rfl, hsame, -⟩
  exact hrest hreadsRest (by omega) b size τ slots' v (hframe.of_sameBelow hsame hn) hsize

theorem stmtFollows_idle {s : Stmt} (hs : ∀ b fuel, P.flow b s (fuel + 1) = pure (.next b)) :
    P.StmtFollows bound s n [] n :=
  fun _ _ b _ _ slots hframe _ => ends_succ (hs b) (.nil (.done (.pure _) ⟨slots, rfl, hframe⟩))

theorem stmtFollows_giveZero (hin : P.site.inFunction = true) :
    P.StmtFollows bound (.give span none) n [.const64 0, .ret] n := by
  intro _ _ b size σ slots _ _
  have hflow : ∀ fuel, P.flow b (.give span none) (fuel + 1) = pure (.leave 0) :=
    fun _ => by rw [flow, Stmt.execute]
  exact ends_succ hflow (.const64 (.ret (.done (.pure _) ⟨hin, [], slots, rfl⟩)))

theorem stmtFollows_give {value : Expr} (hin : P.site.inFunction = true) (hnm : n ≤ m)
    (hvalue : ∀ b, P.ExprFollows bound b value n code m) :
    P.StmtFollows bound (.give span (some value)) n (code ++ [.ret]) m := by
  refine runFollows_value (fun _ _ => by rw [flow, Stmt.execute]; rfl) hvalue (Nat.le_refl m) ?_ hnm
  intro _ _ b size σ slots v _ _
  exact .ret (.done (.pure _) ⟨hin, [], slots, rfl⟩)

theorem stmtFollows_assignLocal {target : String} {value : Expr} {slot : Nat}
    (htarget : P.site.locals.idxOf? target = some slot)
    (hvalue : ∀ b, P.ExprFollows bound b value n code m) :
    P.StmtFollows bound (.assign span target value) n (code ++ [.localSet slot]) m := by
  intro hreads hn b size σ slots hframe hsize
  obtain ⟨w, hw, -⟩ := hframe.holds target slot htarget
  have hflow : ∀ fuel, P.flow b (.assign span target value) (fuel + 1) =
      P.value 0 b value fuel >>= fun v => pure (.next (b.set target v)) := by
    intro fuel
    rw [flow, Stmt.execute]
    simp only [hw, Option.isSome_some, if_true]
    rfl
  rw [mapInstrs_append]
  refine ends_succ hflow (ends_bind (hvalue b (Loaded.reads_append.1 hreads).1 hn σ [] slots
    (hframe.of_le hsize)) ?_)
  rintro v τ _ ⟨slots', rfl, hsame, -⟩
  have hframe' := hframe.of_sameBelow hsame hn
  have hslot : slot < slots'.size := by
    have := lt_length_of_idxOf?_eq_some htarget
    have := hframe'.length_le
    omega
  exact .localSet hslot (.nil (.done (.pure _) ⟨_, rfl, hframe'.set htarget v⟩))

theorem stmtFollows_assignGlobal {target : String} {value : Expr}
    (htarget : P.site.locals.idxOf? target = none)
    (hvalue : ∀ b, P.ExprFollows bound b value n code m) :
    P.StmtFollows bound (.assign span target value) n
      (pushText target ++ code ++ [.call HostFunction.writeGlobal.index]) m := by
  intro hreads hn b size σ slots hframe hsize
  have hfree := hframe.free target htarget
  have hflow : ∀ fuel, P.flow b (.assign span target value) (fuel + 1) = (do
      let v ← P.value 2 b value fuel
      Eval.writeGlobal target v
      return .next b) := by
    intro fuel
    rw [flow, Stmt.execute]
    simp only [hfree, Option.isSome_none, Bool.false_eq_true, if_false]
    rfl
  obtain ⟨⟨hreadsTarget, hreadsValue⟩, -⟩ : (_ ∧ _) ∧ _ := by
    simpa only [Loaded.reads_append] using hreads
  simp only [mapInstrs_append, List.append_assoc]
  refine ends_succ hflow (Loaded.ends_pushText
    (ends_bind (hvalue b hreadsValue hn σ _ slots (hframe.of_le hsize)) ?_))
  rintro v τ _ ⟨slots', rfl, hsame, -⟩
  refine Loaded.ends_writeGlobal (Loaded.reads_pushText hreadsTarget) (.nil ?_)
  exact .done (.of_eq fun _ => rfl) ⟨slots', rfl, hframe.of_sameBelow hsame hn⟩

theorem stmtFollows_eval {value : Expr} (hnm : n ≤ m)
    (hvalue : ∀ b, P.ExprFollows bound b value n code m) :
    P.StmtFollows bound (.eval span value) n (code ++ [.drop]) m := by
  refine runFollows_value (fun _ _ => by rw [flow, Stmt.execute]; rfl) hvalue (Nat.le_refl m) ?_ hnm
  intro _ _ b size σ slots v hframe _
  exact .drop (.nil (.done (.pure _) ⟨slots, rfl, hframe⟩))

/-! ## Blocks -/

theorem blockFollows_nil : P.BlockFollows bound [] n [] n :=
  fun _ _ _ _ _ slots hframe _ => .nil (.done (.pure _) ⟨slots, rfl, hframe⟩)

theorem blockFollows_cons {s : Stmt} {ss : List Stmt} {rest : List Code} (hnk : n ≤ k) (hkm : k ≤ m)
    (hhead : P.StmtFollows bound s n code k) (htail : P.BlockFollows bound ss k rest m) :
    P.BlockFollows bound (s :: ss) n (code ++ rest) m := by
  intro hreads hn b size σ slots hframe hsize
  obtain ⟨hreadsHead, hreadsTail⟩ := Loaded.reads_append.1 hreads
  rw [mapInstrs_append]
  have hrun : (fun fuel => P.blockFlow b (s :: ss) fuel) =
      fun fuel => P.flow b s fuel >>= andThen (P.blockFlow · ss) fuel :=
    funext (P.blockFlow_cons b s ss)
  show Ends _ _ _ _ _ (Follows L.base (fun fuel => P.blockFlow b (s :: ss) fuel) σ _)
  rw [hrun]
  refine .append ((hhead hreadsHead hn b size σ slots hframe (by omega)).imp
    fun o ho => ho.orElse ?_)
  rintro (b' | v) τ hreach hflow
  · obtain ⟨slots', rfl, hframe'⟩ := hflow
    exact (htail hreadsTail (by omega) b' size τ slots' hframe' hsize).imp
      fun o ho => .bind hreach ho
  · obtain ⟨hin, stack, slots', rfl⟩ := hflow
    exact .bind hreach (.done (.pure _) ⟨hin, stack, slots', rfl⟩)

/-- A block that is entered with an empty stack and left by no branch. -/
theorem ends_body {run : Nat → Eval Flow} {σ : Store} {size : Nat} {is : List (Wasm.Instr UInt32)}
    {c : Config} (h : Ends L.inst bound P.room is c (Follows L.base run σ (P.FlowsTo size))) :
    Ends L.inst bound P.room is c fun o =>
      Outcome.OrElse (Ends L.inst bound P.room [] · (Follows L.base run σ (P.FlowsTo size)))
        (Follows L.base run σ (P.FlowsTo size)) (leaveBlock 0 [] o) := by
  refine h.imp fun o ho => ?_
  rw [leaveBlock_of_follows ho]
  exact Outcome.orElse_nil ho

theorem flow_branch (b : Bindings) (test : Expr) (body orelse : List Stmt) (fuel : Nat) :
    P.flow b (.branch span test body orelse) (fuel + 1) =
      P.value 0 b test fuel >>= fun v => P.blockFlow b (if v = 0 then orelse else body) fuel := by
  rw [flow, Stmt.execute]
  rfl

theorem stmtFollows_when {test : Expr} {body : List Stmt} {bodyCode : List Code} (hnk : n ≤ k)
    (hkm : k ≤ m) (htest : ∀ b, P.ExprFollows bound b test n code k)
    (hbody : P.BlockFollows bound body k bodyCode m) :
    P.StmtFollows bound (.branch span test body []) n
      (code ++ [.const64 0, Comparison.code .notEqual, .when .none bodyCode]) m := by
  refine runFollows_value (fun b fuel => flow_branch b test body [] fuel) htest hkm ?_ hnk
  intro hreads hk b size σ slots v hframe hsize
  rw [Loaded.reads_when] at hreads
  refine .const64 (.numeric (apply_notEqual_zero v []) (.when (fun hzero => ?_) fun hother => ?_))
  · have hv : v = 0 := by simpa using ofBool_eq_zero_iff.1 hzero
    simp only [hv, if_true]
    exact .nil (.done (.pure _) ⟨slots, rfl, hframe⟩)
  · have hv : v ≠ 0 := by simpa [ofBool_eq_zero_iff] using hother
    simp only [hv, if_false]
    exact ends_body (hbody hreads hk b size σ slots hframe hsize)

theorem stmtFollows_choose {test : Expr} {body orelse : List Stmt}
    {bodyCode orelseCode : List Code} (hnk : n ≤ k) (hkl : k ≤ l) (hlm : l ≤ m)
    (htest : ∀ b, P.ExprFollows bound b test n code k)
    (hbody : P.BlockFollows bound body k bodyCode l)
    (horelse : P.BlockFollows bound orelse l orelseCode m) :
    P.StmtFollows bound (.branch span test body orelse) n
      (code ++ [.const64 0, Comparison.code .notEqual, .choose .none bodyCode orelseCode]) m := by
  refine runFollows_value (fun b fuel => flow_branch b test body orelse fuel) htest (by omega) ?_ hnk
  intro hreads hk b size σ slots v hframe hsize
  obtain ⟨hreadsBody, hreadsOrelse⟩ := Loaded.reads_choose.1 hreads
  have hzero : Wasm.ofBool (decide (v ≠ 0)) = 0 ↔ v = 0 := by simp [ofBool_eq_zero_iff]
  refine .const64 (.numeric (apply_notEqual_zero v []) (.choose ?_))
  by_cases hv : v = 0
  · simp only [if_pos (hzero.2 hv), if_pos hv]
    exact ends_body (horelse hreadsOrelse (by omega) b size σ slots hframe hsize)
  · simp only [if_neg (mt hzero.1 hv), if_neg hv]
    exact ends_body (hbody hreadsBody hk b size σ slots hframe (by omega))

/-! ## Loops -/

/-- What comes behind the test of a loop. -/
def afterTest (P : Spot L) (loop : Stmt) (body : List Stmt) (b : Bindings) (fuel : Nat)
    (v : Int64) : Eval Flow :=
  if v = 0 then pure (.next b) else P.blockFlow b body fuel >>= andThen (P.flow · loop) fuel

section Loops

variable {test : Expr} {body : List Stmt} {bodyCode : List Code} {b : Bindings} {size : Nat}

theorem flow_loop (b : Bindings) (test : Expr) (body : List Stmt) (fuel : Nat) :
    P.flow b (.loop span test body) (fuel + 1) =
      P.value 0 b test fuel >>= P.afterTest (.loop span test body) body b fuel := by
  rw [flow, Stmt.execute]
  refine bind_congr fun v => ?_
  rw [afterTest]
  split
  · rfl
  · refine bind_congr fun flow => ?_
    cases flow <;> rfl

/-- A loop goes on as what comes behind its test. -/
theorem reaches_loop {v : Int64} {σ τ : Store} {r : Result Flow}
    (hv : Reaches (P.value 0 b test) σ (.done v τ))
    (h : Reaches (P.afterTest (.loop span test body) body b · v) τ r) :
    Reaches (P.flow b (.loop span test body)) σ r :=
  (hv.bind h).succ fun fuel => by rw [flow_loop]

/-- A round begins with the locals and the store that the evaluation has then. -/
def AtRound (P : Spot L) (size : Nat) (i : Bindings × Store) (c : Config) : Prop :=
  ∃ slots, c = ⟨[], slots, L.stateAt i.2⟩ ∧ P.Frame i.1 size slots

/-- The outcome of the block around a loop is how the loop ends, from a round on. -/
def LoopEnds (P : Spot L) (loop : Stmt) (size : Nat) (i : Bindings × Store) (o : Outcome) : Prop :=
  Follows L.base (P.flow i.1 loop) i.2 (P.FlowsTo size) (leaveBlock 0 [] o)

/-- A round of the machine's loop is a round of the loop. -/
theorem ends_round (span : Option Span) (hnk : n ≤ k) (hkm : k ≤ m)
    (htest : ∀ b, P.ExprFollows bound b test n code k)
    (hbody : P.BlockFollows bound body k bodyCode m) (hreadsTest : L.Reads code)
    (hreadsBody : L.Reads bodyCode) (hn : P.site.locals.length ≤ n) (hsize : m ≤ size)
    (i : Bindings × Store) (c : Config) (hc : P.AtRound size i c) :
    Ends L.inst bound P.room (mapInstrs L.resolve
        (code ++ [.numeric (.isZero .w64), .brIf 1] ++ bodyCode ++ [.br 0])) c
      (Round (P.AtRound size) (P.LoopEnds (.loop span test body) size) i) := by
  obtain ⟨b, σ⟩ := i
  obtain ⟨slots, rfl, hframe⟩ := hc
  rw [mapInstrs_round]
  refine .append ((htest b hreadsTest hn σ [] slots (hframe.of_le (by omega))).imp fun o ho => ?_)
  rcases ho with ⟨f, τ, hf, rfl⟩ | ⟨v, τ, hv, _, rfl, slots₁, rfl, hsame, -⟩
  · have hf : Reaches (P.value 0 b test) σ (.fault f τ) := hf
    exact .fault (hf.bind_fault.succ fun fuel => by rw [flow_loop])
  have hframe₁ := hframe.of_sameBelow hsame hn
  refine .numeric (apply_isZero v []) (.brIf (fun hround => ?_) fun hdone => ?_)
  · have hv0 : v ≠ 0 := by simpa [ofBool_eq_zero_iff] using hround
    have hafter : (P.afterTest (.loop span test body) body b · v) = fun fuel =>
        P.blockFlow b body fuel >>= andThen (P.flow · (.loop span test body)) fuel :=
      funext fun fuel => if_neg hv0
    refine .append ((hbody hreadsBody (by omega) b size τ slots₁ hframe₁ hsize).imp fun o ho => ?_)
    rcases ho with ⟨f, υ, hf, rfl⟩ | ⟨flow, υ, hflow, ho⟩
    · exact .fault (reaches_loop hv (hafter ▸ hf.bind_fault))
    cases flow with
    | next b' =>
      obtain ⟨slots₂, rfl, hframe₂⟩ := ho
      refine .br ⟨(b', υ), ⟨slots₂, rfl, hframe₂⟩, fun o ho => ?_⟩
      refine ho.of_reaches (fun _ _ hf => ?_) fun _ _ hdone hmid => .done ?_ hmid
      · exact reaches_loop hv (hafter ▸ hflow.bind hf)
      · exact reaches_loop hv (hafter ▸ hflow.bind hdone)
    | leave w =>
      obtain ⟨hin, stack, slots₂, rfl⟩ := ho
      have hreach : Reaches (P.flow b (.loop span test body)) σ (.done (.leave w) υ) :=
        reaches_loop hv (by rw [hafter]; exact hflow.bind (.pure _))
      exact .done hreach ⟨hin, stack, slots₂, rfl⟩
  · have hv0 : v = 0 := by simpa [ofBool_eq_zero_iff] using hdone
    have hafter : (P.afterTest (.loop span test body) body b · v) = fun _ => pure (.next b) :=
      funext fun fuel => if_pos hv0
    have hreach : Reaches (P.flow b (.loop span test body)) σ (.done (.next b) τ) :=
      reaches_loop hv (by rw [hafter]; exact .pure _)
    exact .done hreach ⟨slots₁, rfl, hframe₁⟩

theorem stmtFollows_loop (hnk : n ≤ k) (hkm : k ≤ m)
    (htest : ∀ b, P.ExprFollows bound b test n code k)
    (hbody : P.BlockFollows bound body k bodyCode m) :
    P.StmtFollows bound (.loop span test body) n
      [.block .none [.loop .none
        (code ++ [.numeric (.isZero .w64), .brIf 1] ++ bodyCode ++ [.br 0])]] m := by
  intro hreads hn b size σ slots hframe hsize
  obtain ⟨hreadsTest, hreadsBody⟩ := Loaded.reads_round.1 (Loaded.reads_loop.1 hreads)
  have hloop := Ends.loop (i := (b, σ)) (fun i c hc _ =>
    ends_round span hnk hkm htest hbody hreadsTest hreadsBody hn hsize i c hc)
    ⟨slots, rfl, hframe⟩ rfl
  exact .block (hloop.imp fun o ho => Outcome.orElse_nil ho)

end Loops

/-! ## All statements -/

mutual

/-- Code of a statement follows its execution. -/
theorem stmtFollows (hcalls : CallsFollow L bound) {s : Stmt} {n m : Nat} {code : List Code} :
    StmtCode P.site s n code m → P.StmtFollows bound s n code m
  | .define => stmtFollows_idle fun _ _ => by rw [flow, Stmt.execute]
  | .pass => stmtFollows_idle fun _ _ => by rw [flow, Stmt.execute]
  | .giveZero hin => stmtFollows_giveZero hin
  | .give hin hvalue => stmtFollows_give hin hvalue.slots_le fun _ => exprFollows hcalls hvalue
  | .assignLocal htarget hvalue =>
    stmtFollows_assignLocal htarget fun _ => exprFollows hcalls hvalue
  | .assignGlobal htarget hvalue =>
    stmtFollows_assignGlobal htarget fun _ => exprFollows hcalls hvalue
  | .eval hvalue => stmtFollows_eval hvalue.slots_le fun _ => exprFollows hcalls hvalue
  | .when htest _ hbody =>
    stmtFollows_when htest.slots_le hbody.slots_le (fun _ => exprFollows hcalls htest)
      (blockFollows hcalls hbody)
  | .choose htest _ hbody _ horelse =>
    stmtFollows_choose htest.slots_le hbody.slots_le horelse.slots_le
      (fun _ => exprFollows hcalls htest) (blockFollows hcalls hbody) (blockFollows hcalls horelse)
  | .loop htest _ hbody =>
    stmtFollows_loop htest.slots_le hbody.slots_le (fun _ => exprFollows hcalls htest)
      (blockFollows hcalls hbody)

/-- Code of a block follows its execution. -/
theorem blockFollows (hcalls : CallsFollow L bound) {ss : List Stmt} {n m : Nat}
    {code : List Code} : BlockCode P.site ss n code m → P.BlockFollows bound ss n code m
  | .nil => blockFollows_nil
  | .cons hhead htail =>
    blockFollows_cons hhead.slots_le htail.slots_le (stmtFollows hcalls hhead)
      (blockFollows hcalls htail)

end

end Spot

end Stampline
