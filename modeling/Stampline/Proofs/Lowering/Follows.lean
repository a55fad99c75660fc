import Stampline.Proofs.Evaluation.Reaches
import Stampline.Proofs.Wasm.Ends

/-!
# Code that follows an evaluation

`Follows base run σ mid o` says that an outcome `o` of code is how the evaluation `run` ends on the
store `σ`: with the same fault, or with a value for which `mid` tells what the outcome has to be.

An environment is the store of an evaluation behind what was there before: its globals are those of
the store, and its output ends with what was printed.
-/

namespace Stampline

open Wasm (Outcome Ends CallEnds Instance Room Instr Config Value)

/-- The environment that a run leaves that began in `base` and came to a store. -/
def Environment.after (base : Environment) (σ : Store) : Environment :=
  { base with globals := σ.globals, output := base.output ++ σ.print }

/-- The outcome is how the evaluation ends. -/
def Follows {α : Type} (base : Environment) (run : Nat → Eval α) (σ : Store)
    (mid : α → Store → Outcome → Prop) (o : Outcome) : Prop :=
  (∃ f τ, Reaches run σ (.fault f τ) ∧ o = .fault f (base.after τ)) ∨
    ∃ v τ, Reaches run σ (.done v τ) ∧ mid v τ o

variable {α β : Type} {base : Environment} {σ τ : Store} {o : Outcome}

namespace Follows

theorem done {run : Nat → Eval α} {mid : α → Store → Outcome → Prop} {v : α}
    (h : Reaches run σ (.done v τ)) (hmid : mid v τ o) : Follows base run σ mid o :=
  .inr ⟨v, τ, h, hmid⟩

theorem fault {run : Nat → Eval α} {mid : α → Store → Outcome → Prop} {f : Fault}
    (h : Reaches run σ (.fault f τ)) : Follows base run σ mid (.fault f (base.after τ)) :=
  .inl ⟨f, τ, h, rfl⟩

theorem imp {run : Nat → Eval α} {mid mid' : α → Store → Outcome → Prop}
    (h : Follows base run σ mid o) (himp : ∀ v τ, mid v τ o → mid' v τ o) :
    Follows base run σ mid' o := by
  rcases h with h | ⟨v, τ, hreach, hmid⟩
  · exact .inl h
  · exact done hreach (himp v τ hmid)

/-- What follows an evaluation follows another one that comes to the same. -/
theorem of_reaches {run : Nat → Eval α} {run' : Nat → Eval β} {t : Store}
    {mid : α → Store → Outcome → Prop} {mid' : β → Store → Outcome → Prop}
    (h : Follows base run σ mid o)
    (hfault : ∀ f τ, Reaches run σ (.fault f τ) → Reaches run' t (.fault f τ))
    (hdone : ∀ v τ, Reaches run σ (.done v τ) → mid v τ o → Follows base run' t mid' o) :
    Follows base run' t mid' o := by
  rcases h with ⟨f, τ, hreach, rfl⟩ | ⟨v, τ, hreach, hmid⟩
  · exact fault (hfault f τ hreach)
  · exact hdone v τ hreach hmid

/-- An evaluation that spends fuel on nothing but its parts. -/
theorem succ {run whole : Nat → Eval α} {mid : α → Store → Outcome → Prop}
    (h : Follows base run σ mid o) (hwhole : ∀ fuel, whole (fuel + 1) = run fuel) :
    Follows base whole σ mid o :=
  h.of_reaches (fun _ _ hreach => hreach.succ fun fuel => by rw [hwhole])
    fun _ _ hreach hmid => done (hreach.succ fun fuel => by rw [hwhole]) hmid

/-- The second part of a sequence whose first part is done. -/
theorem bind {first : Nat → Eval α} {second : Nat → α → Eval β} {v : α}
    {mid : β → Store → Outcome → Prop} (hfirst : Reaches first σ (.done v τ))
    (h : Follows base (second · v) τ mid o) :
    Follows base (fun fuel => first fuel >>= second fuel) σ mid o :=
  h.of_reaches (fun _ _ hreach => hfirst.bind hreach)
    fun _ _ hreach hmid => done (hfirst.bind hreach) hmid

end Follows

section Code

variable {inst : Instance} {bound : Nat} {room : Room} {is js : List (Instr UInt32)} {c : Config}
  {first : Nat → Eval α} {second : Nat → α → Eval β} {mid : α → Store → Outcome → Prop}
  {post : β → Store → Outcome → Prop}

theorem ends_succ {run whole : Nat → Eval α} (hwhole : ∀ fuel, whole (fuel + 1) = run fuel)
    (h : Ends inst bound room is c (Follows base run σ mid)) :
    Ends inst bound room is c (Follows base whole σ mid) := h.imp fun _ ho => ho.succ hwhole

/-- What goes on behind an outcome that follows the first part of a sequence. -/
theorem Follows.orElse {next : Config → Prop} (h : Follows base first σ mid o)
    (hmid : ∀ v τ, Reaches first σ (.done v τ) → mid v τ o →
      o.OrElse next (Follows base (fun fuel => first fuel >>= second fuel) σ post)) :
    o.OrElse next (Follows base (fun fuel => first fuel >>= second fuel) σ post) := by
  rcases h with ⟨f, τ, hreach, rfl⟩ | ⟨v, τ, hreach, hmid'⟩
  · exact .fault hreach.bind_fault
  · exact hmid v τ hreach hmid'

/-- Code in sequence follows an evaluation in sequence. -/
theorem ends_bind {goal : α → Store → Config → Prop}
    (h : Ends inst bound room is c
      (Follows base first σ fun v τ o => ∃ c', o = .next c' ∧ goal v τ c'))
    (hrest : ∀ v τ c', goal v τ c' →
      Ends inst bound room js c' (Follows base (second · v) τ post)) :
    Ends inst bound room (is ++ js) c
      (Follows base (fun fuel => first fuel >>= second fuel) σ post) := by
  refine .append (h.imp fun o ho => ho.orElse ?_)
  rintro v τ hreach ⟨c', rfl, hc'⟩
  exact (hrest v τ c' hc').imp fun o => .bind hreach

end Code

end Stampline
