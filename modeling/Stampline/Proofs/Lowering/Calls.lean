import Stampline.Proofs.Lowering.Slots
import Stampline.Proofs.Lowering.Statements

/-!
# Calls and whole programs

A call of a function of a program follows the evaluation of the call, whatever the bound of the
machine's fuel is: bodies follow with the fuel that is left, which is less. The machine refuses a
function when the limits of the engine do, as the room that is left is what the live functions leave.
The code of the program itself follows its meaning in the same way.
-/

namespace Stampline

open Wasm (Room Value Config Outcome Ends CallEnds mapInstrs mapInstrs_append returnTo)

/-- The slots of a function at the beginning of a call hold its locals. -/
theorem Function.Begins.framed {f : Function} {values : List Int64} {b : Bindings} {slots : Nat}
    (h : f.Begins values b) (hle : f.locals.length ≤ slots) :
    Framed f.locals b slots
      (values.map Value.i64 ++ List.replicate (slots - f.params.length) (Value.i64 0)).toArray := by
  obtain ⟨hlength, hget⟩ := h
  refine ⟨?_, ?_, fun id slot hid => ?_, fun id hid => by rw [hget, hid]; rfl⟩
  · simp
    omega
  · simp
    omega
  · have hlt := lt_length_of_idxOf?_eq_some hid
    refine ⟨_, by rw [hget, hid]; rfl, ?_⟩
    by_cases hslot : slot < values.length
    · simp [List.getElem?_append_left, hslot]
    · have hrest : slot - values.length < slots - f.params.length := by omega
      rw [List.getElem?_toArray, List.getElem?_append_right (by simpa using hslot)]
      simp [hrest, hslot]

/-- What a function yields whose body ends as a flow says. -/
def Flow.result : Flow → Eval Int64
  | .next _ => pure 0
  | .leave v => pure v

section Calls

variable {L : Loaded} {P : Spot L} {bound : Nat} {d : Definition} {b : Bindings}
  {live : List Activation} {waiting : Nat}

/-- The call of a function that is let in goes on as its body. -/
theorem reaches_call (haround : P.around = d.around) (hlive : P.live = ⟨waiting, d.slots⟩ :: live)
    (hfree : Limits.engine (⟨waiting, d.slots⟩ :: live) = none) {σ : Store} {r : Result Int64}
    (h : Reaches (fun fuel => P.blockFlow b d.body fuel >>= Flow.result) σ r) :
    Reaches (fun fuel => d.call .engine fuel live waiting b) σ r := by
  refine h.succ fun fuel => ?_
  show d.call .engine (fuel + 1) live waiting b σ = _
  rw [Definition.call, Limits.enter_of_free hfree, ← haround, ← hlive]
  exact congrFun (bind_congr fun flow => by cases flow <;> rfl) σ

/-- The body of a function at the place of the function follows the evaluation of the call, and
returns to the caller with the value. -/
theorem ends_function (haround : P.around = d.around)
    (hlive : P.live = ⟨waiting, d.slots⟩ :: live)
    (hfree : Limits.engine (⟨waiting, d.slots⟩ :: live) = none) {n size : Nat} {body : List Code}
    {σ : Store} {slots caller : Array Value} {below : List Value}
    (hbody : P.BlockFollows bound d.body n body size) (hreads : L.Reads (body ++ [.const64 0]))
    (hn : P.site.locals.length ≤ n) (hframe : P.Frame b size slots) :
    Ends L.inst bound P.room (mapInstrs L.resolve (body ++ [.const64 0]))
      ⟨[], slots, L.stateAt σ⟩ fun o => (∀ target c, o ≠ .tail target c) ∧
        Follows L.base (fun fuel => d.call .engine fuel live waiting b) σ
          (fun v τ o => o = .next ⟨.i64 v :: below, caller, L.stateAt τ⟩)
          (returnTo caller below 1 o) := by
  rw [mapInstrs_append]
  refine .append ((hbody (Loaded.reads_append.1 hreads).1 hn b size σ slots hframe
    (Nat.le_refl _)).imp fun o ho => ?_)
  rcases ho with ⟨f, τ, hf, rfl⟩ | ⟨flow, τ, hflow, ho⟩
  · exact ⟨nofun, .fault (reaches_call haround hlive hfree hf.bind_fault)⟩
  cases flow with
  | next b' =>
    obtain ⟨slots', rfl, -⟩ := ho
    have hreach := reaches_call haround hlive hfree (hflow.bind (.pure 0))
    exact .const64 (.nil ⟨nofun, .done hreach rfl⟩)
  | leave v =>
    obtain ⟨-, stack, slots', rfl⟩ := ho
    have hreach := reaches_call haround hlive hfree (hflow.bind (.pure v))
    exact ⟨nofun, .done hreach (by simp [returnTo])⟩

end Calls

/-- Within every bound, calls follow the evaluation of definitions. -/
theorem callsFollow (L : Loaded) : ∀ bound, CallsFollow L bound
  | 0 => by
    intro index f d hf hd room live hleft values b σ below slots hbegins
    rintro (_ | fuel) hfuel
    · exact .inl rfl
    · omega
  | bound + 1 => by
    intro index f d hf hd room live hleft values b σ below slots hbegins
    obtain ⟨code, size, hemit, hcallee, hreads⟩ := L.codes index f hf
    have hsize : size = d.slots := Function.slots_eq hd.params hd.body hd.stands.knows hemit
    obtain ⟨body, hbody, rfl⟩ := Function.emit_eq_ok hemit
    have hframed := hbegins.framed hbody.slots_le
    -- The slots are those of the parameters and the further ones.
    have hslots : (typeOfArity f.params.length).params.length +
        (List.replicate (size - f.params.length) (Value.i64 0)).length = d.slots := by
      have := f.length_params_le
      have := hbody.slots_le
      simp [typeOfArity]
      omega
    refine .code hcallee (by simp [typeOfArity, hbegins.1]) (fun fault hfault => ?_)
      fun inner hinner => ?_
    · have hrefused := hleft.engine_of_error hfault
      rw [hslots] at hrefused
      have hfaults : Reaches (fun _ => (Eval.fault fault : Eval Int64)) σ (.fault fault σ) :=
        .of_eq fun _ => rfl
      refine .fault (hfaults.succ fun fuel => ?_)
      show d.call .engine (fuel + 1) live below.length b σ = _
      rw [Definition.call, Limits.enter_of_refused hrefused]
    · obtain ⟨hfree, hinner⟩ := hleft.engine_of_ok hinner
      rw [hslots] at hfree hinner
      rw [List.reverse_reverse]
      let P : Spot L := ⟨⟨L.functions, f.scope, f.locals, true⟩, d.around, _, inner, rfl,
        hd.stands, hinner⟩
      exact ends_function (P := P) rfl rfl hfree
        (Spot.blockFollows (callsFollow L bound) (P := P) (hd.body ▸ hbody)) hreads (Nat.le_refl _)
        hframed

/-! ## Whole programs -/

/-- The code of a program that is let in follows its meaning. -/
theorem ends_program {L : Loaded} {p : Program} (hfunctions : L.functions = p.functions)
    {code : List Code} {size : Nat} (hemit : p.emit = .ok (code, size)) (hreads : L.Reads code)
    (bound : Nat) {room : Room} (hleft : room.LeftBy [⟨0, p.slots⟩])
    (hfree : Limits.engine [⟨0, p.slots⟩] = none) :
    Ends L.inst bound room (mapInstrs L.resolve code)
      ⟨[], (List.replicate size (Value.i64 0)).toArray, L.inEnv L.base⟩
      (Follows L.base (p.meaning .engine) { globals := L.base.globals }
        fun _ τ o => ∃ slots, o = .next ⟨[], slots, L.stateAt τ⟩) := by
  let P : Spot L := ⟨⟨p.functions, p.scope, [], false⟩, [p], _, room, hfunctions.symm,
    hfunctions ▸ p.stands, hleft⟩
  have hframe : P.Frame ∅ size (List.replicate size (Value.i64 0)).toArray :=
    ⟨Nat.zero_le _, by simp, fun _ _ h => by simp [P] at h, fun _ _ => rfl⟩
  have hbase : L.inEnv L.base = L.stateAt { globals := L.base.globals } := by
    simp [Loaded.stateAt, Environment.after, Store.print]
  have hmeaning : p.meaning .engine = fun fuel => P.blockFlow ∅ p fuel >>= fun
      | .next _ => pure ()
      | .leave _ => .stuck := by
    funext fuel
    rw [Program.meaning, Limits.enter_of_free hfree]
    exact bind_congr fun flow => by cases flow <;> rfl
  rw [hbase, hmeaning]
  refine (Spot.blockFollows (callsFollow L bound) (P := P) (Program.emit_eq_ok hemit) hreads
    (Nat.le_refl _) ∅ size _ _ hframe (Nat.le_refl _)).imp fun o ho => ?_
  refine ho.of_reaches (fun _ _ => Reaches.bind_fault) ?_
  rintro (b | v) τ hreach hflow
  · obtain ⟨slots, rfl, -⟩ := hflow
    exact .done (hreach.bind (.pure ())) ⟨slots, rfl⟩
  · exact absurd hflow.1 (by simp [P])

end Stampline
