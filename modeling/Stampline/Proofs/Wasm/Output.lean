import Stampline.Pipeline
import Stampline.Proofs.Wasm.Invariants

/-!
# The output of a run

However a run ends, nothing that was printed is taken back, and output still goes where it went. Only
the functions of the host reach the environment at all, so that this holds of every module.
-/

namespace Stampline

namespace Wasm

/-- What is known of the environment that is left, if one is left. -/
abbrev Outcome.Leaves (P : Environment → Prop) (o : Outcome) : Prop :=
  o.Within (fun s => P s.env) P

theorem Outcome.Leaves.imp {P Q : Environment → Prop} {o : Outcome} (h : o.Leaves P)
    (himp : ∀ env, P env → Q env) : o.Leaves Q := by
  cases o with
  | stuck | unfinished => trivial
  | _ => exact himp _ h

/-! ## Steps -/

section Steps

variable {c : Config}

theorem Config.leaves_yield (result : Except Fault Value) (stack : List Value) :
    (c.yield result stack).Leaves (· = c.env) := by
  cases result <;> rfl

theorem Config.leaves_change {stack : List Value} {bound : Fault} {inBounds : Bool}
    {change : State → State} (h : ∀ s, (change s).env = s.env) :
    (c.change stack bound inBounds change).Leaves (· = c.env) := by
  cases inBounds with
  | false => rfl
  | true => exact h c.state

theorem leaves_stepTable (i : Instr UInt32) : (stepTable i c).Leaves (· = c.env) := by
  unfold stepTable
  dsimp only
  split <;> try split
  all_goals first
    | rfl
    | trivial
    | exact c.leaves_yield _ _
    | exact Config.leaves_change fun _ => rfl
    | (split <;> first | rfl | exact Config.leaves_change fun _ => rfl)

theorem leaves_stepMemory (i : Instr UInt32) : (stepMemory i c).Leaves (· = c.env) := by
  unfold stepMemory
  dsimp only
  split <;> try split
  all_goals first
    | rfl
    | trivial
    | exact leaves_stepTable _
    | exact Config.leaves_change fun _ => rfl
    | (split <;> first | rfl | exact Config.leaves_change fun _ => rfl)

/-- An instruction that has no body and calls nothing does not reach the environment. -/
theorem leaves_step (i : Instr UInt32) : (step i c).Leaves (· = c.env) := by
  unfold step
  split <;> try split
  all_goals first
    | rfl
    | trivial
    | exact c.leaves_yield _ _
    | exact leaves_stepMemory _

/-- What a function of the host makes of an environment. -/
inductive HostFunction.Makes (env : Environment) : HostFunction → Environment → Prop where
  | nothing {f : HostFunction} : Makes env f env
  | print {f : HostFunction} (text : String) : Makes env f (env.write text)
  | bind (name : String) (value : Int64) : Makes env .writeGlobal (env.setGlobal name value)

theorem leaves_hostCall (f : HostFunction) (memory : Option Memory) :
    (HostFunction.call f memory c).Leaves (HostFunction.Makes c.env f) := by
  unfold HostFunction.call
  split
  · exact .print _
  all_goals try (split <;> try split)
  all_goals first
    | exact .nothing
    | exact .print _
    | exact .bind _ _
    | trivial
    | (split <;> exact .nothing)

end Steps

end Wasm

/-! ## Runs -/

/-- The second environment has the output of the first one and perhaps more behind it, and its output
goes to the same place. -/
structure Environment.Grows (env env' : Environment) : Prop where
  sink : env'.sink = env.sink
  output : ∃ text, env'.output = env.output ++ text

namespace Environment.Grows

variable {env env' env'' : Environment}

theorem refl : env.Grows env := ⟨rfl, "", by simp⟩

theorem trans (h : env.Grows env') (h' : env'.Grows env'') : env.Grows env'' := by
  obtain ⟨text, htext⟩ := h.output
  obtain ⟨text', htext'⟩ := h'.output
  exact ⟨h'.sink.trans h.sink, text ++ text', by rw [htext', htext, String.append_assoc]⟩

theorem write (text : String) : env.Grows (env.write text) := ⟨rfl, text, rfl⟩

theorem setGlobal (name : String) (value : Int64) : env.Grows (env.setGlobal name value) :=
  ⟨rfl, "", by simp [Environment.setGlobal]⟩

end Environment.Grows

namespace Wasm

/-- A function of the host adds to the output at most. -/
theorem HostFunction.Makes.grows {f : HostFunction} {env env' : Environment}
    (h : HostFunction.Makes env f env') : env.Grows env' := by
  cases h with
  | nothing => exact .refl
  | print text => exact .write text
  | bind name value => exact .setGlobal name value

/-- Whatever functions there are, and whichever of them are called, they add to the output at most. -/
theorem upholds_grows (inst : Instance) (env : Environment) :
    Upholds inst (fun _ => True) (fun s => env.Grows s.env) env.Grows where
  stop _ hs := hs
  step i c _ hc := by
    have hstep : (step i c).Leaves (· = c.env) := leaves_step i
    exact hstep.imp fun env' henv => henv.symm ▸ hc
  host f memory c hc := by
    have hcall : (HostFunction.call f memory c).Leaves (HostFunction.Makes c.env f) :=
      leaves_hostCall f memory
    exact hcall.imp fun env' henv => hc.trans henv.grows
  code _ _ _ body _ := only_all body

/-- A module is instantiated in the environment that it is given. -/
theorem Module.env_of_instantiate {m : Module} {env : Environment} {inst : Instance} {s : State}
    (h : m.instantiate env = some (inst, s)) : s.env = env := by
  simp only [Module.instantiate, Option.bind_eq_bind, Option.bind_eq_some_iff] at h
  obtain ⟨hosts, -, codes, -, globals, -, elems, -, tables, -, memories, -, h⟩ := h
  obtain ⟨-, rfl⟩ := Prod.mk.inj (Option.some.inj h)
  rfl

/-- The environment that is left has the property, if there is enough fuel to tell. -/
def Ending.Leaves (P : Environment → Prop) : Ending → Prop
  | .ended _ env | .refused env => P env
  | .unfinished => True

theorem Module.leaves_run (m : Module) (fuel : Nat) (env : Environment) :
    (m.run fuel env).Leaves env.Grows := by
  unfold Module.run
  split
  · exact .refl
  split
  · exact .refl
  next inst s hinstance =>
    have hwithin := (upholds_grows inst env).within fuel
    have hfirst : env.Grows s.env := Module.env_of_instantiate hinstance ▸ .refl
    have hstart : (inst.callFirst fuel m.start s).Leaves env.Grows := by
      unfold Instance.callFirst
      split
      · exact hfirst
      · exact hwithin.invoke _ _ _ hfirst
    split
    · next c hnext =>
      rw [hnext] at hstart
      split
      · exact hstart
      next func _ =>
        have hprogram := hwithin.invoke .full func ⟨[], #[], c.state⟩ hstart
        split <;> first
          | exact hstart
          | trivial
          | (rename_i hends; rw [hends] at hprogram; exact hprogram)
    · next hfault =>
      rw [hfault] at hstart
      exact hstart
    · trivial
    · exact .refl

end Wasm

/-- Whatever bytes are run, the environment that is left has at the beginning of its output what was
printed before, and its output goes to the same place. -/
theorem Executable.grows_of_run {x : Executable} {fuel : Nat} {env : Environment} {r : Run}
    (h : x.run fuel env = some r) : env.Grows r.env := by
  unfold Executable.run at h
  cases hread : Wasm.read x.bytes with
  | none =>
    rw [hread] at h
    obtain rfl := Option.some.inj h
    exact .refl
  | some m =>
    rw [hread] at h
    dsimp only at h
    have hmodule := m.leaves_run fuel env
    cases hrun : m.run fuel env with
    | unfinished =>
      rw [hrun] at h
      cases h
    | refused env' =>
      rw [hrun] at h hmodule
      obtain rfl := Option.some.inj h
      exact hmodule
    | ended fault env' =>
      rw [hrun] at h hmodule
      cases fault <;>
      · obtain rfl := Option.some.inj h
        exact hmodule

end Stampline
