import Stampline.Wasm.Machine

/-!
# What code ends in

`Ends inst bound room is c post` says that whatever the code `is` ends in within `bound` units of
fuel has the property `post`. It says nothing of code that has not ended by then, so that properties
of all runs follow by induction on the bound.

There is one rule for each form of code that programs are lowered to. The rules go through the code
from the front, and the bound of what comes behind never grows.
-/

namespace Stampline.Wasm

/-- The outcome has the property, unless there was not enough fuel to tell. -/
def Outcome.Meets (o : Outcome) (post : Outcome → Prop) : Prop := o = .unfinished ∨ post o

/-- The property of outcomes that go on as `next` says, or end as `post` says. -/
def Outcome.OrElse (next : Config → Prop) (post : Outcome → Prop) : Outcome → Prop
  | .next c => next c
  | o => post o

/-- Whatever the code ends in within the bound has the property. -/
def Ends (inst : Instance) (bound : Nat) (room : Room) (is : List (Instr UInt32)) (c : Config)
    (post : Outcome → Prop) : Prop :=
  ∀ fuel, fuel ≤ bound → (execAll inst fuel room is c).Meets post

/-- Whatever a call ends in within the bound has the property. -/
def CallEnds (inst : Instance) (bound : Nat) (room : Room) (func : Nat) (c : Config)
    (post : Outcome → Prop) : Prop :=
  ∀ fuel, fuel ≤ bound → (invoke inst fuel room func c).Meets post

variable {inst : Instance} {bound : Nat} {room : Room} {is js : List (Instr UInt32)} {c : Config}
  {post : Outcome → Prop}

theorem Outcome.Meets.imp {o : Outcome} {post' : Outcome → Prop} (h : o.Meets post)
    (himp : ∀ o, post o → post' o) : o.Meets post' := Or.imp id (himp o) h

theorem Ends.imp {post' : Outcome → Prop} (h : Ends inst bound room is c post)
    (himp : ∀ o, post o → post' o) : Ends inst bound room is c post' :=
  fun fuel hfuel => (h fuel hfuel).imp himp

/-! ## Steps of the machine

Each equation is one branch of the machine, for the instructions that programs are lowered to. -/

section Equations

variable {fuel : Nat} {i : Instr UInt32} {body orelse : List (Instr UInt32)} {test : UInt32}
  {stack : List Value} {locals : Array Value} {s : State}

theorem execAll_nil : execAll inst (fuel + 1) room [] c = .next c := rfl

theorem execAll_cons : execAll inst (fuel + 1) room (i :: is) c =
    match exec inst fuel room i c with
    | .next c => execAll inst fuel room is c
    | o => o := rfl

theorem step_localGet {slot : Nat} {v : Value} (hv : locals[slot]? = some v) :
    step (.localGet slot) ⟨stack, locals, s⟩ = .next ⟨v :: stack, locals, s⟩ := by
  delta step
  dsimp only
  rw [hv]

theorem step_localSet {slot : Nat} {v : Value} (hslot : slot < locals.size) :
    step (.localSet slot) ⟨v :: stack, locals, s⟩ =
      .next ⟨stack, locals.setIfInBounds slot v, s⟩ := if_pos hslot

theorem step_brIf {depth : Nat} : step (.brIf depth) ⟨.i32 test :: stack, locals, s⟩ =
    if test = 0 then .next ⟨stack, locals, s⟩ else .branch depth ⟨stack, locals, s⟩ := rfl

theorem step_numeric {op : Numeric} {result : Except Fault Value} {stack' : List Value}
    (h : op.apply stack = some (result, stack')) : step (.numeric op) ⟨stack, locals, s⟩ =
      Config.yield ⟨stack, locals, s⟩ result stack' := by
  delta step
  dsimp only
  rw [h]

theorem exec_call {func : Nat} :
    exec inst (fuel + 1) room (.call func) c = invoke inst fuel room func c := rfl

theorem exec_block : exec inst (fuel + 1) room (.block .none body) c =
    leaveBlock 0 c.stack (execAll inst fuel room body c) := rfl

theorem exec_when :
    exec inst (fuel + 1) room (.when .none body) ⟨.i32 test :: stack, locals, s⟩ =
      if test = 0 then .next ⟨stack, locals, s⟩
      else leaveBlock 0 stack (execAll inst fuel room body ⟨stack, locals, s⟩) := rfl

theorem exec_choose :
    exec inst (fuel + 1) room (.choose .none body orelse) ⟨.i32 test :: stack, locals, s⟩ =
      leaveBlock 0 stack
        (execAll inst fuel room (if test = 0 then orelse else body) ⟨stack, locals, s⟩) := rfl

theorem exec_loop : exec inst (fuel + 1) room (.loop .none body) c =
    match execAll inst fuel room body c with
    | .branch 0 after => exec inst fuel room (.loop .none body) { after with stack := c.stack }
    | o => leaveBlock 0 c.stack o := rfl

end Equations

/-! ## Code in sequence -/

/-- Code in sequence runs in turn, and the second part has the fuel that the first leaves. -/
theorem execAll_append (is js : List (Instr UInt32)) (fuel : Nat) (c : Config) :
    execAll inst fuel room (is ++ js) c =
      match execAll inst fuel room is c with
      | .next c => execAll inst (fuel - is.length) room js c
      | o => o := by
  induction is generalizing fuel c with
  | nil =>
    cases fuel with
    | zero => rfl
    | succ fuel => simp [execAll_nil]
  | cons i is ih =>
    cases fuel with
    | zero => rfl
    | succ fuel =>
      simp only [List.cons_append, execAll_cons]
      cases exec inst fuel room i c with
      | next c => simpa using ih fuel c
      | _ => rfl

theorem Ends.nil (h : post (.next c)) : Ends inst bound room [] c post := by
  rintro (_ | fuel) _
  · exact .inl rfl
  · exact .inr h

theorem Outcome.orElse_nil {o : Outcome} (h : post o) :
    o.OrElse (Ends inst bound room [] · post) post := by
  cases o with
  | next c => exact .nil h
  | _ => exact h

theorem Ends.append
    (h : Ends inst bound room is c (Outcome.OrElse (Ends inst bound room js · post) post)) :
    Ends inst bound room (is ++ js) c post := by
  intro fuel hfuel
  rw [execAll_append]
  rcases h fuel hfuel with h | h
  · rw [h]
    exact .inl rfl
  · revert h
    cases execAll inst fuel room is c with
    | next c => exact fun h => h (fuel - is.length) (by omega)
    | _ => exact fun h => .inr h

/-! ## Single instructions -/

theorem Ends.cons {i : Instr UInt32}
    (h : ∀ fuel, fuel < bound →
      (exec inst fuel room i c).Meets (Outcome.OrElse (Ends inst bound room is · post) post)) :
    Ends inst bound room (i :: is) c post := by
  rintro (_ | fuel) hfuel
  · exact .inl rfl
  · rw [execAll_cons]
    rcases h fuel hfuel with h | h
    · rw [h]
      exact .inl rfl
    · revert h
      cases exec inst fuel room i c with
      | next c => exact fun h => h fuel (by omega)
      | _ => exact fun h => .inr h

/-- An instruction that has no body and calls nothing takes a step. -/
theorem Ends.plain {i : Instr UInt32} (hi : ∀ fuel, exec inst (fuel + 1) room i c = step i c)
    (h : Outcome.OrElse (Ends inst bound room is · post) post (step i c)) :
    Ends inst bound room (i :: is) c post := by
  refine .cons ?_
  rintro (_ | fuel) _
  · exact .inl rfl
  · rw [hi]
    exact .inr h

section Steps

variable {stack : List Value} {locals : Array Value} {s : State}

theorem Ends.const64 {value : Int64}
    (h : Ends inst bound room is ⟨.i64 value :: stack, locals, s⟩ post) :
    Ends inst bound room (.const64 value :: is) ⟨stack, locals, s⟩ post :=
  .plain (fun _ => rfl) h

theorem Ends.const32 {value : UInt32}
    (h : Ends inst bound room is ⟨.i32 value :: stack, locals, s⟩ post) :
    Ends inst bound room (.const32 value :: is) ⟨stack, locals, s⟩ post :=
  .plain (fun _ => rfl) h

theorem Ends.localGet {slot : Nat} {v : Value} (hv : locals[slot]? = some v)
    (h : Ends inst bound room is ⟨v :: stack, locals, s⟩ post) :
    Ends inst bound room (.localGet slot :: is) ⟨stack, locals, s⟩ post :=
  .plain (fun _ => rfl) (by rw [step_localGet hv]; exact h)

theorem Ends.localSet {slot : Nat} {v : Value} (hslot : slot < locals.size)
    (h : Ends inst bound room is ⟨stack, locals.setIfInBounds slot v, s⟩ post) :
    Ends inst bound room (.localSet slot :: is) ⟨v :: stack, locals, s⟩ post :=
  .plain (fun _ => rfl) (by rw [step_localSet hslot]; exact h)

theorem Ends.drop {v : Value} (h : Ends inst bound room is ⟨stack, locals, s⟩ post) :
    Ends inst bound room (.drop :: is) ⟨v :: stack, locals, s⟩ post :=
  .plain (fun _ => rfl) h

theorem Ends.ret (h : post (.leave c)) : Ends inst bound room (.ret :: is) c post :=
  .plain (fun _ => rfl) h

theorem Ends.br {depth : Nat} (h : post (.branch depth c)) :
    Ends inst bound room (.br depth :: is) c post :=
  .plain (fun _ => rfl) h

theorem Ends.brIf {depth : Nat} {test : UInt32}
    (hzero : test = 0 → Ends inst bound room is ⟨stack, locals, s⟩ post)
    (hother : test ≠ 0 → post (.branch depth ⟨stack, locals, s⟩)) :
    Ends inst bound room (.brIf depth :: is) ⟨.i32 test :: stack, locals, s⟩ post := by
  refine .plain (fun _ => rfl) ?_
  rw [step_brIf]
  by_cases ht : test = 0
  · rw [if_pos ht]
    exact hzero ht
  · rw [if_neg ht]
    exact hother ht

theorem Ends.numeric {op : Numeric} {v : Value} (hv : op.apply stack = some (.ok v, stack'))
    (h : Ends inst bound room is ⟨v :: stack', locals, s⟩ post) :
    Ends inst bound room (.numeric op :: is) ⟨stack, locals, s⟩ post :=
  .plain (fun _ => rfl) (by rw [step_numeric hv]; exact h)

theorem Ends.numeric_fault {op : Numeric} {f : Fault}
    (hf : op.apply stack = some (.error f, stack')) (h : post (.fault f s.env)) :
    Ends inst bound room (.numeric op :: is) ⟨stack, locals, s⟩ post :=
  .plain (fun _ => rfl) (by rw [step_numeric hf]; exact h)

end Steps

/-! ## Calls -/

theorem Ends.call {func : Nat}
    (h : CallEnds inst bound room func c (Outcome.OrElse (Ends inst bound room is · post) post)) :
    Ends inst bound room (.call func :: is) c post := by
  refine .cons ?_
  rintro (_ | fuel) hfuel
  · exact .inl rfl
  · rw [exec_call]
    exact h fuel (by omega)

theorem CallEnds.imp {func : Nat} {post' : Outcome → Prop} (h : CallEnds inst bound room func c post)
    (himp : ∀ o, post o → post' o) : CallEnds inst bound room func c post' :=
  fun fuel hfuel => (h fuel hfuel).imp himp

theorem CallEnds.host {func : Nat} {f : HostFunction} (hf : inst.callees[func]? = some (.host f))
    (h : post (HostFunction.call f (inst.hostMemory c.state) c)) :
    CallEnds inst bound room func c post := by
  rintro (_ | fuel) _
  · exact .inl rfl
  · rw [invoke, hf]
    exact .inr h

/-- A call of a function of the module is refused by the engine, or runs the body in the room that is
left. No function that a program is lowered to leaves by calling another one. -/
theorem CallEnds.code {func : Nat} {type : FuncType} {further : List Value}
    {body : List (Instr UInt32)} {args below : List Value} {locals : Array Value} {s : State}
    (hfunc : inst.callees[func]? = some (.code type further body))
    (hargs : args.length = type.params.length)
    (hrefused : ∀ f, room.enter below.length (type.params.length + further.length) = .error f →
      post (.fault f s.env))
    (hbody : ∀ inner, room.enter below.length (type.params.length + further.length) = .ok inner →
      Ends inst (bound - 1) inner body ⟨[], (args.reverse ++ further).toArray, s⟩ fun o =>
        (∀ target c', o ≠ .tail target c') ∧ post (returnTo locals below type.results.length o)) :
    CallEnds inst bound room func ⟨args ++ below, locals, s⟩ post := by
  rintro (_ | fuel) hfuel
  · exact .inl rfl
  · have htake : (args ++ below).take type.params.length = args := by
      rw [← hargs, List.take_left]
    have hdrop : (args ++ below).drop type.params.length = below := by
      rw [← hargs, List.drop_left]
    simp only [invoke, hfunc, htake, hdrop, List.length_append]
    rw [if_neg (by omega)]
    cases hinner : room.enter below.length (type.params.length + further.length) with
    | error f => exact .inr (hrefused f hinner)
    | ok inner =>
      simp only []
      rcases hbody inner hinner fuel (by omega) with h | ⟨htail, h⟩
      · rw [h]
        exact .inl rfl
      · revert htail h
        cases execAll inst fuel inner body ⟨[], (args.reverse ++ further).toArray, s⟩ with
        | tail target c' => exact fun htail _ => absurd rfl (htail target c')
        | _ => exact fun _ h => .inr h

/-! ## Blocks -/

section Blocks

variable {stack : List Value} {locals : Array Value} {s : State}

theorem Ends.block {body : List (Instr UInt32)}
    (h : Ends inst bound room body c fun o =>
      Outcome.OrElse (Ends inst bound room is · post) post (leaveBlock 0 c.stack o)) :
    Ends inst bound room (.block .none body :: is) c post := by
  refine .cons ?_
  rintro (_ | fuel) hfuel
  · exact .inl rfl
  · rw [exec_block]
    rcases h fuel (by omega) with h | h
    · rw [h]
      exact .inl rfl
    · exact .inr h

theorem Ends.when {body : List (Instr UInt32)} {test : UInt32}
    (hzero : test = 0 → Ends inst bound room is ⟨stack, locals, s⟩ post)
    (hother : test ≠ 0 → Ends inst bound room body ⟨stack, locals, s⟩ fun o =>
      Outcome.OrElse (Ends inst bound room is · post) post (leaveBlock 0 stack o)) :
    Ends inst bound room (.when .none body :: is) ⟨.i32 test :: stack, locals, s⟩ post := by
  refine .cons ?_
  rintro (_ | fuel) hfuel
  · exact .inl rfl
  · rw [exec_when]
    split
    · exact .inr (hzero ‹_›)
    · rcases hother ‹_› fuel (by omega) with h | h
      · rw [h]
        exact .inl rfl
      · exact .inr h

theorem Ends.choose {body orelse : List (Instr UInt32)} {test : UInt32}
    (h : Ends inst bound room (if test = 0 then orelse else body) ⟨stack, locals, s⟩ fun o =>
      Outcome.OrElse (Ends inst bound room is · post) post (leaveBlock 0 stack o)) :
    Ends inst bound room (.choose .none body orelse :: is) ⟨.i32 test :: stack, locals, s⟩ post := by
  refine .cons ?_
  rintro (_ | fuel) hfuel
  · exact .inl rfl
  · rw [exec_choose]
    rcases h fuel (by omega) with h | h
    · rw [h]
      exact .inl rfl
    · exact .inr h

/-- What a round of a loop has to end in: it ends the loop as `post` says, or it goes back to the
beginning in a place where `inv` holds and from where it is enough to end the loop as `post` says
there. -/
def Round {ι : Type} (inv : ι → Config → Prop) (post : ι → Outcome → Prop) (i : ι) : Outcome → Prop
  | .branch 0 after => ∃ j, inv j { after with stack := [] } ∧ ∀ o, post j o → post i o
  | o => post i (leaveBlock 0 [] o)

/-- A loop that is entered with an empty stack. The rounds that `inv` and `post` are about are told
apart by an index. -/
theorem Ends.loop {ι : Type} {body : List (Instr UInt32)} {inv : ι → Config → Prop}
    {post : ι → Outcome → Prop}
    (hround : ∀ i c, inv i c → c.stack = [] → Ends inst bound room body c (Round inv post i))
    {i : ι} {c : Config} (hinv : inv i c) (hstack : c.stack = []) :
    Ends inst bound room [.loop .none body] c (post i) := by
  have hexec : ∀ fuel, fuel ≤ bound → ∀ i c, inv i c → c.stack = [] →
      (exec inst fuel room (.loop .none body) c).Meets (post i) := by
    intro fuel
    induction fuel with
    | zero => exact fun _ _ _ _ _ => .inl rfl
    | succ fuel ih =>
      intro hfuel i c hinv hstack
      rw [exec_loop, hstack]
      rcases hround i c hinv hstack fuel (by omega) with h | h
      · rw [h]
        exact .inl rfl
      · revert h
        cases execAll inst fuel room body c with
        | branch depth after =>
          cases depth with
          | zero =>
            rintro ⟨j, hafter, himp⟩
            exact (ih (by omega) j _ hafter rfl).imp himp
          | succ depth => exact fun h => .inr h
        | _ => exact fun h => .inr h
  refine .cons fun fuel hfuel => (hexec fuel (by omega) i c hinv hstack).imp fun o ho => ?_
  exact Outcome.orElse_nil ho

end Blocks

end Stampline.Wasm
