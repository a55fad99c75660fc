import Stampline.Pipeline
import Stampline.Proofs.Evaluation.Faults
import Stampline.Proofs.Lowering.Loading
import Stampline.Proofs.Lowering.Valid

/-!
# The run of a lowered program

Running the bytes that a program is lowered to is what the program means: the run ends as the
evaluation of the tree does, and leaves the environment that the evaluation leaves. The evaluation is
one within the limits of the engine, which stop it exactly where they stop the run. Apart from this,
the engine may refuse a module that is too large.
-/

namespace Stampline

open Wasm (Func Module Outcome Room CallEnds Value State Config Instr Numeric)

variable {p : Program} {code : List (Func TextPart)}

/-! ## Runs of the module -/

/-- How a run ends whose program ended with an outcome. -/
def endingOf (env : Environment) : Outcome → Wasm.Ending
  | .next c => .ended none c.env
  | .fault f env => .ended (some f) env
  | .unfinished => .unfinished
  | _ => .refused env

theorem run_assemble (h : p.HasCode code) (hcheck : (assemble p.arities code).check = true)
    (fuel : Nat) (env : Environment) : (assemble p.arities code).run fuel env =
      endingOf env (Wasm.invoke (instanceOf p code) fuel .full
        (HostFunction.count + p.functions.length) ⟨[], #[], stateOf code env⟩) := by
  unfold Module.run
  rw [hcheck, instantiate_assemble h]
  simp only [Bool.not_true, Bool.false_eq_true, if_false]
  have hstart : (assemble p.arities code).start = none := rfl
  simp only [hstart, Wasm.Instance.callFirst, program?_assemble h]
  cases Wasm.invoke (instanceOf p code) fuel .full
    (HostFunction.count + p.functions.length) ⟨[], #[], stateOf code env⟩ <;> rfl

/-- The program of a module follows the meaning of the program that was lowered, within the limits of
the engine. -/
theorem invoke_assemble (h : p.HasCode code) (hcheck : checkDefinitionsIn true [] p = .ok ())
    (hdata : (poolOf code).bytes.length < 4294967296) (fuel : Nat) (env : Environment) :
    (Wasm.invoke (instanceOf p code) fuel .full (HostFunction.count + p.functions.length)
      ⟨[], #[], stateOf code env⟩).Meets
        (Follows env (p.meaning .engine) { globals := env.globals }
          fun _ τ o => ∃ c, o = .next c ∧ c.env = env.after τ) := by
  obtain ⟨body, slots, hemit, hcallee, g, hg, rfl⟩ := callees_run h
  let L := h.loaded hcheck hdata env
  -- All slots of the program are beyond its parameters, since it has none.
  have hslots : 0 + (List.replicate slots (Value.i64 0)).length = p.slots := by
    rw [List.length_replicate, Nat.zero_add, Program.slots_eq hemit]
  have hends : CallEnds L.inst fuel .full (HostFunction.count + p.functions.length)
      ⟨[] ++ [], #[], stateOf code env⟩ (Follows env (p.meaning .engine)
        { globals := env.globals } fun _ τ o => ∃ c, o = .next c ∧ c.env = env.after τ) := by
    refine .code hcallee rfl (fun fault hfault => ?_) fun inner hinner => ?_
    · have hrefused := Room.leftBy_full.engine_of_error hfault
      rw [List.length_nil, List.length_nil, hslots] at hrefused
      have henv : (stateOf code env).env = env.after { globals := env.globals } := by
        simp [stateOf, Environment.after, Store.print]
      rw [henv]
      refine .fault (.of_eq fun fuel => ?_)
      rw [Program.meaning, Limits.enter_of_refused hrefused]
      rfl
    · obtain ⟨hfree, hleft⟩ := Room.leftBy_full.engine_of_ok hinner
      rw [List.length_nil, List.length_nil, hslots] at hfree hleft
      refine (ends_program (L := L) rfl hemit (readsBack_stateOf hg hdata env) (fuel - 1) hleft
        hfree).imp fun o ho => ?_
      rcases ho with ⟨f, τ, hf, rfl⟩ | ⟨v, τ, hv, slots, rfl⟩
      · refine ⟨?_, .fault hf⟩
        rintro target c ⟨⟩
      · refine ⟨?_, .done hv ⟨_, rfl, rfl⟩⟩
        rintro target c ⟨⟩
  exact hends fuel (Nat.le_refl _)

/-! ## Runs of the executable -/

/-- By its meaning within limits a program ends as `outcome` says, and comes to the store `τ`. -/
def Program.EndsIn (p : Program) (limits : Limits) (env : Environment) (τ : Store) :
    Except Error Unit → Prop
  | .ok () => Reaches (p.meaning limits) { globals := env.globals } (.done () τ)
  | .error (.execution f) => Reaches (p.meaning limits) { globals := env.globals } (.fault f τ)
  | .error _ => False

theorem Program.endsIn_iff {limits : Limits} {env : Environment} {τ : Store}
    {outcome : Except Error Unit} : p.EndsIn limits env τ outcome ↔
      (outcome = .ok () ∧ Reaches (p.meaning limits) { globals := env.globals } (.done () τ)) ∨
      ∃ f, outcome = .error (.execution f) ∧
        Reaches (p.meaning limits) { globals := env.globals } (.fault f τ) := by
  cases outcome with
  | ok => simp [EndsIn]
  | error e => cases e <;> simp [EndsIn]

/-- An executable has more bytes than a module can have. -/
def Executable.Oversized (x : Executable) : Prop := 4294967296 ≤ x.bytes.length

namespace Run

/-- The run ends as the program does by its meaning within limits, and leaves the globals and the output
that the program leaves. -/
def Agrees (limits : Limits) (p : Program) (env : Environment) (r : Run) : Prop :=
  ∃ τ, p.EndsIn limits env τ r.outcome ∧ r.env = env.after τ

/-- The engine refused to run an executable that is too large for it. -/
def Refused (p : Program) (x : Executable) (env : Environment) (r : Run) : Prop :=
  r = ⟨.error .instantiation, env⟩ ∧ (x.Oversized ∨ p.TooLarge)

/-- The engine stopped the run for lack of room. -/
def Stopped (r : Run) : Prop :=
  r.outcome = .error (.execution .stackExhausted) ∨ r.outcome = .error (.execution .tooManyLocals)

end Run

/-- What a program comes to that is refused no function, it comes to within all limits that let in what
the engine lets in. -/
theorem Program.reaches_within {limits : Limits} (hlimits : Limits.engine.Within limits) {σ : Store}
    {result : Result Unit} (h : Reaches (p.meaning .engine) σ result)
    (hstack : ∀ τ, result ≠ .fault .stackExhausted τ)
    (hlocals : ∀ τ, result ≠ .fault .tooManyLocals τ) : Reaches (p.meaning limits) σ result := by
  obtain ⟨k, hk⟩ := h
  refine ⟨k, fun fuel hfuel => ?_⟩
  have hresult := hk fuel hfuel
  rcases p.unrestrained_meaning hlimits fuel σ with heq | ⟨f, τ, hfault, live, hlive⟩
  · rw [heq, hresult]
  · rw [hresult] at hfault
    rcases Limits.eq_of_engine hlive with rfl | rfl
    · exact absurd hfault (hstack τ)
    · exact absurd hfault (hlocals τ)

theorem Program.EndsIn.within {limits : Limits} (hlimits : Limits.engine.Within limits)
    {env : Environment} {τ : Store} {r : Run} (h : p.EndsIn .engine env τ r.outcome)
    (hstopped : ¬r.Stopped) : p.EndsIn limits env τ r.outcome := by
  rw [Program.endsIn_iff] at h ⊢
  rcases h with ⟨houtcome, hreach⟩ | ⟨f, houtcome, hreach⟩
  · exact .inl ⟨houtcome, p.reaches_within hlimits hreach nofun nofun⟩
  · refine .inr ⟨f, houtcome, p.reaches_within hlimits hreach (fun υ hf => ?_) fun υ hf => ?_⟩
    · obtain ⟨rfl, -⟩ := Result.fault.inj hf
      exact hstopped (.inl houtcome)
    · obtain ⟨rfl, -⟩ := Result.fault.inj hf
      exact hstopped (.inr houtcome)

/-- How the run of an executable ends whose module ended. -/
def runOf : Wasm.Ending → Option Run
  | .ended none env => some ⟨.ok (), env⟩
  | .ended (some fault) env => some ⟨.error (.execution fault), env⟩
  | .refused env => some ⟨.error .instantiation, env⟩
  | .unfinished => none

theorem Executable.run_of_read {x : Executable} {m : Module} (h : Wasm.read x.bytes = some m)
    (fuel : Nat) (env : Environment) : x.run fuel env = runOf (m.run fuel env) := by
  unfold Executable.run
  rw [h]
  rfl

/-- An executable that cannot be read is refused. -/
theorem Executable.run_of_unread {x : Executable} (h : Wasm.read x.bytes = none) (fuel : Nat)
    (env : Environment) : x.run fuel env = some ⟨.error .instantiation, env⟩ := by
  unfold Executable.run
  rw [h]

/-- A module that is not valid is refused. -/
theorem runOf_of_not_check {m : Module} (h : ¬m.check = true) (fuel : Nat) (env : Environment) :
    runOf (m.run fuel env) = some ⟨.error .instantiation, env⟩ := by
  unfold Module.run
  rw [Bool.eq_false_iff.2 h]
  rfl

/-- The run of an executable that is neither too large nor refused. -/
theorem run_of_check {x : Executable} (h : p.HasCode code)
    (hbytes : x.bytes = (assemble p.arities code).encode) (hsize : x.bytes.length < 4294967296)
    (hcheck : (assemble p.arities code).check = true) (fuel : Nat) (env : Environment) :
    x.run fuel env = runOf (endingOf env (Wasm.invoke (instanceOf p code) fuel .full
      (HostFunction.count + p.functions.length) ⟨[], #[], stateOf code env⟩)) := by
  have hread : Wasm.read x.bytes = some (assemble p.arities code) := by
    rw [hbytes, read_encode]
    exact (Wasm.decode_encode (plain_assemble h)).resolve_right
      fun hlarge => hlarge.1 (hbytes ▸ hsize)
  rw [Executable.run_of_read hread, run_assemble h hcheck]

/-- The run of a module that is valid agrees with the meaning of the program. -/
theorem run_assemble_agrees (h : p.HasCode code) (hparams : checkDefinitionsIn true [] p = .ok ())
    (hdata : (poolOf code).bytes.length < 4294967296)
    (hcheck : (assemble p.arities code).check = true) {fuel : Nat} {env : Environment} {r : Run}
    (hr : runOf ((assemble p.arities code).run fuel env) = some r) : r.Agrees .engine p env := by
  rw [run_assemble h hcheck] at hr
  rcases invoke_assemble h hparams hdata fuel env with
    hunfinished | ⟨f, τ, hf, ho⟩ | ⟨_, τ, hdone, c, ho, hc⟩
  · rw [hunfinished] at hr
    cases hr
  · rw [ho] at hr
    obtain rfl := Option.some.inj hr
    exact ⟨τ, hf, rfl⟩
  · rw [ho] at hr
    obtain rfl := Option.some.inj hr
    exact ⟨τ, hdone, hc⟩

theorem length_bytes_of_decode {bytes : List UInt8}
    (h : Wasm.decode bytes = some (assemble p.arities code)) :
    (poolOf code).bytes.length < 4294967296 := by
  have hsegments : ∀ s ∈ (poolOf code).segments, s.bytes.length < 4294967296 :=
    Wasm.length_data_of_decode h
  unfold TextPool.segments at hsegments
  split at hsegments
  · rename_i hempty
    rw [List.isEmpty_iff.1 hempty]
    decide
  · exact hsegments _ (List.mem_singleton_self _)

/-- An executable that was made of a program is read back as the module that the program is lowered to,
or is too large to be read at all. -/
theorem Executable.read_of_program {source : String} {x : Executable}
    (hx : p.executable source = .ok x) :
    (4294967296 ≤ x.bytes.length ∧ Wasm.read x.bytes = none) ∨ ∃ code, p.code = .ok code ∧
      checkDefinitionsIn true [] p = .ok () ∧ (poolOf code).bytes.length < 4294967296 ∧
        Wasm.read x.bytes = some (assemble p.arities code) := by
  obtain ⟨m, hm, hbytes⟩ := Program.executable_eq_ok hx
  obtain ⟨-, hcheck, code, hcode, rfl⟩ := Program.lower_eq_ok hm
  rw [hbytes, read_encode]
  rcases Wasm.decode_encode (plain_assemble (Program.code_eq_ok hcode)) with
    hdecode | ⟨hlarge, hdecode⟩
  · exact .inr ⟨code, hcode, hcheck, length_bytes_of_decode hdecode, hdecode⟩
  · exact .inl ⟨Nat.not_lt.1 hlarge, hdecode⟩

/-- A run of an executable that was made of a program is refused, or agrees with the meaning of the
program within the limits of the engine. -/
theorem Executable.run_cases {source : String} {x : Executable} (hx : p.executable source = .ok x)
    {fuel : Nat} {env : Environment} {r : Run} (hr : x.run fuel env = some r) :
    r.Refused p x env ∨ ¬p.TooLarge ∧ r.Agrees .engine p env := by
  rcases Executable.read_of_program hx with ⟨hlarge, hread⟩ | ⟨code, hcode, hparams, hdata, hread⟩
  · rw [Executable.run_of_unread hread] at hr
    exact .inl ⟨(Option.some.inj hr).symm, .inl hlarge⟩
  have h := Program.code_eq_ok hcode
  have hcheck := check_assemble h hdata
  rw [Executable.run_of_read hread] at hr
  by_cases hlarge : p.TooLarge
  · rw [runOf_of_not_check (mt hcheck.1 (not_not_intro hlarge))] at hr
    exact .inl ⟨(Option.some.inj hr).symm, .inr hlarge⟩
  · exact .inr ⟨hlarge, run_assemble_agrees h hparams hdata (hcheck.2 hlarge) hr⟩

/-- Lowering is correct. A run that ends was refused since the executable is too large, or agrees with
the meaning of the program within the limits of the engine. Unless it is stopped by these limits, it
agrees with the meaning of the program within all limits that let in what the engine lets in, and so
with the meaning without limits. -/
theorem run_agrees {p : Program} {source : String} {x : Executable}
    (hx : p.executable source = .ok x) {fuel : Nat} {env : Environment} {r : Run}
    (hr : x.run fuel env = some r) :
    r.Refused p x env ∨ r.Agrees .engine p env ∧
      (r.Stopped ∨ ∀ limits, Limits.engine.Within limits → r.Agrees limits p env) := by
  rcases Executable.run_cases hx hr with hrefused | ⟨-, τ, hends, henv⟩
  · exact .inl hrefused
  refine .inr ⟨⟨τ, hends, henv⟩, ?_⟩
  by_cases hstopped : r.Stopped
  · exact .inl hstopped
  · exact .inr fun limits hlimits => ⟨τ, hends.within hlimits hstopped, henv⟩

/-! ## Counting down

A function that calls itself as often as its argument says comes to an end for every argument, but the
machine stops it if it has room for fewer functions. -/

/-- The span of all nodes. -/
def countdownSpan : Option Span := some Span.root

/-- The call of the function by itself. -/
def countdownNext : Expr :=
  .call countdownSpan (.name countdownSpan "f")
    [.binary countdownSpan .sub (.name countdownSpan "n") (.number countdownSpan 1)] []

/-- What the function does: it counts down to zero, and then yields seven. -/
def countdownBody : List Stmt :=
  [.branch countdownSpan (.name countdownSpan "n") [.give countdownSpan (some countdownNext)] [],
    .give countdownSpan (some (.number countdownSpan 7))]

/-- The call of the function by the program. -/
def countdownCall (n : Int64) : Expr :=
  .call countdownSpan (.name countdownSpan "f") [.number countdownSpan n] []

/-- The program that counts down from `n`. -/
def countdownFrom (n : Int64) : Program :=
  [.define countdownSpan "f" [⟨"n", countdownSpan⟩] countdownBody,
    .eval countdownSpan (.call countdownSpan (.name countdownSpan "print") [countdownCall n] [])]

/-- A run that prints what the function yields, as the program does by its meaning. -/
theorem run_agrees_countdownFrom_three : ∃ x r, (countdownFrom 3).executable "main" = .ok x ∧
    x.run 100 {} = some r ∧ r.outcome = .ok () ∧ r.env.output = "7\n" ∧
      r.Agrees .engine (countdownFrom 3) {} ∧ r.Agrees .unlimited (countdownFrom 3) {} := by
  have hrun : (match (countdownFrom 3).executable "main" with
      | .ok x => (x.run 100 {}).any fun r => r.outcome.isOk && decide (r.env.output = "7\n")
      | .error _ => false) = true := by decide +kernel
  cases hx : (countdownFrom 3).executable "main" with
  | error e => simp [hx] at hrun
  | ok x =>
    rw [hx] at hrun
    obtain ⟨r, hr, hok, houtput⟩ : ∃ r, x.run 100 {} = some r ∧ r.outcome.isOk = true ∧
        r.env.output = "7\n" := by
      simpa [Option.any_eq_true] using hrun
    have hended : r.outcome = .ok () := by
      cases houtcome : r.outcome with
      | ok => rfl
      | error e =>
        rw [houtcome] at hok
        cases hok
    refine ⟨x, r, rfl, hr, hended, houtput, ?_⟩
    rcases run_agrees hx hr with ⟨rfl, -⟩ | ⟨hagrees, (hstopped | hstopped) | hlimits⟩
    · cases hended
    · rw [hstopped] at hended
      cases hended
    · rw [hstopped] at hended
      cases hended
    · exact ⟨hagrees, hlimits .unlimited (Limits.within_unlimited .engine)⟩

/-- The function as a call finds it. -/
def countdownIn (p : Program) : Definition := ⟨["n"], countdownBody, [countdownBody, p]⟩

section Meaning

variable {live : List Activation} {waiting fuel : Nat} {a : Int64} {σ : Store} {b : Bindings}

theorem evaluate_countdownNext (hb : b.get? "n" = some a)
    (hp : definition? "f" [countdownBody, p] = some (countdownIn p)) {b' : Bindings}
    (hb' : (countdownIn p).locals? [a - 1] [] = some b') :
    countdownNext.evaluate .unlimited (fuel + 3) live waiting [countdownBody, p] b σ =
      (countdownIn p).call .unlimited (fuel + 2) live waiting b' σ := by
  have hn : (Expr.name countdownSpan "n").evaluate .unlimited (fuel + 1) live waiting
      [countdownBody, p] b = pure a := by
    rw [Expr.evaluate, hb]
  have hsub : (Expr.binary countdownSpan .sub (.name countdownSpan "n")
      (.number countdownSpan 1)).evaluate .unlimited (fuel + 2) live waiting [countdownBody, p] b =
        pure (a - 1) := by
    rw [Expr.evaluate, hn, Expr.evaluate]
    simp only [pure_bind, BinaryOp.apply_eq]
    rfl
  rw [countdownNext, Expr.evaluate]
  simp only [hp, evaluateAll, List.map_nil, hsub, pure_bind, List.zip_nil_left, hb']

theorem call_countdownIn (hb : b.get? "n" = some a)
    (h : a ≠ 0 → ∀ live,
      countdownNext.evaluate .unlimited (fuel + 1) live 0 [countdownBody, p] b σ = .done 7 σ) :
    (countdownIn p).call .unlimited (fuel + 4) live waiting b σ = .done 7 σ := by
  have hn : ∀ live, (Expr.name countdownSpan "n").evaluate .unlimited (fuel + 2) live 0
      [countdownBody, p] b = pure a := by
    intro live
    rw [Expr.evaluate, hb]
  have hbody : (countdownIn p).body = countdownBody := rfl
  rw [Definition.call, Limits.enter_of_free rfl, hbody, countdownBody, executeAll]
  simp only [Eval.bind_apply, countdownIn]
  rw [Stmt.execute]
  simp only [hn, Eval.bind_apply, Eval.pure_apply]
  by_cases ha : a = 0
  · rw [if_pos ha]
    rfl
  · rw [if_neg ha, executeAll, Eval.bind_apply]
    simp only [Stmt.execute, h ha, Eval.bind_apply]
    rfl

/-- Every call comes to seven. -/
theorem call_countdownIn_ofNat
    (hp : definition? "f" [countdownBody, p] = some (countdownIn p)) :
    ∀ (n : Nat) (b : Bindings), n < 9223372036854775808 → b.get? "n" = some (.ofNat n) →
      ∀ fuel live waiting, 4 * n + 4 ≤ fuel →
        (countdownIn p).call .unlimited fuel live waiting b σ = .done 7 σ
  | n, b, hn, hb, fuel + 4, live, waiting, hfuel => by
    refine call_countdownIn hb fun ha live => ?_
    have hpos : n ≠ 0 := by
      rintro rfl
      exact ha rfl
    obtain ⟨n, rfl⟩ : ∃ m, n = m + 1 := ⟨n - 1, by omega⟩
    have hsub : Int64.ofNat (n + 1) - 1 = Int64.ofNat n := by simp
    obtain ⟨b', hb', hget⟩ : ∃ b', (countdownIn p).locals? [.ofNat (n + 1) - 1] [] = some b' ∧
        b'.get? "n" = some (.ofNat n) := ⟨_, rfl, hsub ▸ rfl⟩
    obtain ⟨fuel, rfl⟩ : ∃ f, fuel = f + 2 := ⟨fuel - 2, by omega⟩
    rw [evaluate_countdownNext hb hp hb']
    exact call_countdownIn_ofNat hp n b' (by omega) hget _ _ _ (by omega)

/-- The program prints seven. -/
theorem meaning_countdownFrom {n : Nat} (hn : n < 9223372036854775808) :
    Reaches ((countdownFrom (.ofNat n)).meaning .unlimited) {}
      (.done () { printed := [⟨[.number 7], " ", "\n"⟩] }) := by
  refine ⟨4 * n + 7, fun fuel hfuel => ?_⟩
  obtain ⟨fuel, rfl⟩ : ∃ f, fuel = f + 4 := ⟨fuel - 4, by omega⟩
  let p := countdownFrom (.ofNat n)
  let live : List Activation := [⟨0, p.slots⟩]
  have hcall : (countdownCall (.ofNat n)).evaluate .unlimited (fuel + 2) live 0 [p] ∅ {} =
      .done 7 {} := by
    have hd : definition? "f" [p] = some (countdownIn p) := rfl
    obtain ⟨b, hb, hget⟩ : ∃ b, (countdownIn p).locals? [.ofNat n] [] = some b ∧
        b.get? "n" = some (.ofNat n) := ⟨_, rfl, rfl⟩
    rw [countdownCall, Expr.evaluate]
    simp only [hd, evaluateAll, Expr.evaluate, List.map_nil, pure_bind, List.zip_nil_left, hb]
    exact call_countdownIn_ofNat rfl n b hn hget _ _ _ (by omega)
  have hprint : (Expr.call countdownSpan (.name countdownSpan "print")
      [countdownCall (.ofNat n)] []).evaluate .unlimited (fuel + 3) live 0 [p] ∅ {} =
        .done 0 { printed := [⟨[.number 7], " ", "\n"⟩] } := by
    have hd : definition? "print" [p] = none := rfl
    rw [Expr.evaluate]
    simp only [hd, List.mapM_cons, List.mapM_nil, countdownCall, Item.ofArgument] at hcall ⊢
    rw [if_pos (show "print" = printName from rfl)]
    simp only [Eval.bind_apply, hcall]
    rfl
  have hdefine : (Stmt.define countdownSpan "f" [⟨"n", countdownSpan⟩] countdownBody).execute
      .unlimited (fuel + 4) live [p] ∅ {} = .done (.next ∅) {} := rfl
  have hall : executeAll (fun b s => s.execute .unlimited (fuel + 4) live [p] b) ∅ p {} =
      .done (.next ∅) { printed := [⟨[.number 7], " ", "\n"⟩] } := by
    show executeAll _ ∅ (_ :: _ :: []) {} = _
    simp only [executeAll, Eval.bind_apply, hdefine]
    simp only [Stmt.execute, Eval.bind_apply, hprint]
    rfl
  show p.meaning .unlimited (fuel + 4) {} = _
  rw [Program.meaning, Limits.enter_of_free rfl, Eval.bind_apply, hall]
  rfl

end Meaning

/-- The function of the program. -/
def countdownFunction : Function :=
  ⟨"f", [⟨"n", countdownSpan⟩], countdownBody, [[], [("f", 0)]]⟩

/-- The code of the function. It refers to no texts. -/
def countdownCode {ι : Type} : List (Instr ι) :=
  [.localGet 0, .const64 0, .numeric (.compare .w64 .ne), .when .none
    [.localGet 0, .const64 1, .numeric (.arith .w64 .sub), .call 4, .ret],
    .const64 7, .ret, .const64 0]

theorem emit_countdownFunction (n : Int64) :
    countdownFunction.emit (countdownFrom n).functions = .ok (countdownCode, 1) := rfl

theorem emit_countdownFrom (n : Int64) : (countdownFrom n).emit = .ok
    ([.const64 n, .call 4, .localSet 0, .localGet 0, .call 0] ++ pushText "\n" ++
      [.call 1, .const64 0, .drop], 1) := rfl

section Machine

variable {inst : Wasm.Instance} {fuel : Nat}

theorem execAll_countdownCode {room : Room} {s : State} {a : Int64}
    (ha : a ≠ 0)
    (hcall : ∀ locals, Wasm.invoke inst fuel room 4 ⟨[.i64 (a - 1)], locals, s⟩ =
      .fault .stackExhausted s.env) :
    Wasm.execAll inst (fuel + 10) room countdownCode ⟨[], #[.i64 a], s⟩ =
      .fault .stackExhausted s.env := by
  have htest : (Numeric.compare .w64 .ne).apply [.i64 0, .i64 a] = some (.ok (.i32 1), []) :=
    (apply_notEqual_zero a []).trans (by rw [decide_eq_true ha]; rfl)
  have hsub : (Numeric.arith .w64 .sub).apply [.i64 1, .i64 a] =
      some (.ok (.i64 (a - 1)), []) := rfl
  simp [countdownCode, Wasm.execAll, Wasm.exec, Wasm.step, Config.yield, htest, hsub, hcall,
    Wasm.leaveBlock]

/-- A function without parameters faults as its body does. -/
theorem invoke_of_fault {func : Nat} {further : List Value} {body : List (Instr UInt32)}
    {room inner : Room} {s : State} {f : Fault} {env : Environment}
    (hfunc : inst.callees[func]? = some (.code ⟨[], []⟩ further body))
    (hinner : room.enter 0 further.length = .ok inner)
    (hbody : Wasm.execAll inst fuel inner body ⟨[], further.toArray, s⟩ = .fault f env) :
    Wasm.invoke inst (fuel + 1) room func ⟨[], #[], s⟩ = .fault f env := by
  simp [Wasm.invoke, hfunc, hinner, hbody, Wasm.returnTo]

/-- A call is stopped that needs more functions than there is room for. -/
theorem invoke_countdownCode
    (hinst : inst.callees[4]? = some (.code ⟨[.i64], [.i64]⟩ [] countdownCode)) :
    ∀ (k n : Nat), k ≤ n → n < 9223372036854775808 → ∀ room : Room, room.frames = k →
      ∀ fuel, 11 * k + 1 ≤ fuel → ∀ (stack : List Value) (locals : Array Value) (s : State),
        Wasm.invoke inst fuel room 4 ⟨.i64 (.ofNat n) :: stack, locals, s⟩ =
          .fault .stackExhausted s.env
  | 0, n, hk, hn, room, hroom, fuel + 1, hfuel, stack, locals, s => by
    simp [Wasm.invoke, hinst, Wasm.maxSlots, Room.enter, hroom, Config.env]
  | k + 1, n + 1, hk, hn, room, hroom, fuel, hfuel, stack, locals, s => by
    obtain ⟨fuel, rfl⟩ : ∃ f, fuel = f + 11 := ⟨fuel - 11, by omega⟩
    have hne : Int64.ofNat (n + 1) ≠ 0 := by
      intro h
      have := congrArg Int64.toInt h
      rw [Int64.toInt_ofNat_of_lt (by omega), Int64.toInt_zero] at this
      omega
    have hsub : Int64.ofNat (n + 1) - 1 = Int64.ofNat n := by simp
    generalize Int64.ofNat (n + 1) = a at hne hsub
    by_cases hroom' : stack.length + 1 ≤ room.cells
    · have hinner : room.enter stack.length 1 = .ok ⟨k, room.cells - (stack.length + 1)⟩ := by
        simp [Room.enter, Wasm.maxSlots, hroom, hroom']
      have hcall : ∀ locals, Wasm.invoke inst fuel ⟨k, room.cells - (stack.length + 1)⟩ 4
          ⟨[.i64 (a - 1)], locals, s⟩ = .fault .stackExhausted s.env := by
        intro locals
        rw [hsub]
        exact invoke_countdownCode hinst k n (by omega) (by omega) _ rfl fuel (by omega) [] locals s
      have hbody := execAll_countdownCode hne hcall
      unfold Wasm.invoke
      simp [hinst, hinner, hbody, Wasm.returnTo]
    · have hfull : room.enter stack.length 1 = .error .stackExhausted := by
        simp [Room.enter, Wasm.maxSlots, hroom, hroom']
      unfold Wasm.invoke
      simp [hinst, hfull, Config.env]

/-- The machine stops the program if it counts down from 999 or more. -/
theorem invoke_countdownFrom {n : Nat} (hn : n < 9223372036854775808) (hlarge : 999 ≤ n)
    {code : List (Func TextPart)} (h : (countdownFrom (.ofNat n)).HasCode code)
    {fuel : Nat} (hfuel : 10990 ≤ fuel) :
    Wasm.invoke (instanceOf (countdownFrom (.ofNat n)) code) (fuel + 4) .full 5
      ⟨[], #[], stateOf code {}⟩ = .fault .stackExhausted {} := by
  obtain ⟨body, slots, hemit, hfunction, -⟩ := callees_function h (i := 0) rfl
  obtain ⟨rfl, rfl⟩ := Prod.mk.inj (Except.ok.inj (hemit.symm.trans (emit_countdownFunction _)))
  obtain ⟨body', slots', hemit', hrun, -⟩ := callees_run h
  obtain ⟨rfl, rfl⟩ := Prod.mk.inj (Except.ok.inj (hemit'.symm.trans (emit_countdownFrom _)))
  have hfunction : (instanceOf (countdownFrom (.ofNat n)) code).callees[4]? = _ := hfunction
  have hcall := invoke_countdownCode hfunction
    999 n hlarge hn ⟨999, 999999⟩ rfl fuel hfuel [] #[.i64 0] (stateOf code {})
  have hrun : (instanceOf (countdownFrom (.ofNat n)) code).callees[5]? = _ := hrun
  have hbody : Wasm.execAll (instanceOf (countdownFrom (.ofNat n)) code) (fuel + 3) ⟨999, 999999⟩
      (Wasm.mapInstrs (poolOf code).resolve ([.const64 (.ofNat n), .call 4, .localSet 0,
        .localGet 0, .call 0] ++ pushText "\n" ++ [.call 1, .const64 0, .drop]))
      ⟨[], #[.i64 0], stateOf code {}⟩ = .fault .stackExhausted {} := by
    simp only [Wasm.mapInstrs_append, Wasm.mapInstrs, Wasm.Instr.map, List.cons_append,
      Wasm.execAll, Wasm.exec, Wasm.step, hcall]
    rfl
  exact invoke_of_fault hrun rfl hbody

end Machine

/-- A run that is stopped, of a program that comes to an end by its meaning. -/
theorem run_countdownFrom_stopped : ∃ x, (countdownFrom 1000).executable "main" = .ok x ∧
    (∃ fuel, x.run fuel {} = some ⟨.error (.execution .stackExhausted), {}⟩) ∧
      Reaches ((countdownFrom 1000).meaning .unlimited) {}
        (.done () { printed := [⟨[.number 7], " ", "\n"⟩] }) := by
  have hvalid : (((countdownFrom 1000).executable "main").toOption.all fun x =>
      decide (x.bytes.length < 4294967296)) && (countdownFrom 1000).lower.toOption.all Module.check &&
        ((countdownFrom 1000).executable "main").toOption.isSome = true := by decide +kernel
  cases hx : (countdownFrom 1000).executable "main" with
  | error e => simp [hx, Except.toOption] at hvalid
  | ok x =>
    obtain ⟨m, hm, hbytes⟩ := Program.executable_eq_ok hx
    rw [hx, hm] at hvalid
    obtain ⟨hsize, hcheck⟩ := Bool.and_eq_true_iff.1 (Bool.and_eq_true_iff.1 hvalid).1
    obtain ⟨-, hparams, code, hcode, rfl⟩ := Program.lower_eq_ok hm
    have h := Program.code_eq_ok hcode
    refine ⟨x, rfl, ⟨11000, ?_⟩, meaning_countdownFrom (by decide)⟩
    rw [run_of_check h hbytes (of_decide_eq_true hsize) hcheck]
    exact congrArg (fun o => runOf (endingOf {} o))
      (invoke_countdownFrom (n := 1000) (by decide) (by decide) h (show 10990 ≤ 10996 by decide))

end Stampline
