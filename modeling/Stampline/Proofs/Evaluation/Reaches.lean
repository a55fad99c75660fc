import Stampline.Evaluation.Program

/-!
# What evaluations come to

`Reaches run s r` says that an evaluation comes to the result `r` whenever it is given enough fuel.
Evaluations in sequence are given the same fuel; enough for the sequence is what is enough for either
part.
-/

namespace Stampline

variable {α β : Type} {s t : Store}

/-- With enough fuel the evaluation comes to `r`. -/
def Reaches (run : Nat → Eval α) (s : Store) (r : Result α) : Prop :=
  ∃ k, ∀ fuel, k ≤ fuel → run fuel s = r

namespace Reaches

theorem of_eq {run : Nat → Eval α} {r : Result α} (h : ∀ fuel, run fuel s = r) :
    Reaches run s r := ⟨0, fun fuel _ => h fuel⟩

theorem pure (v : α) : Reaches (fun _ => (Pure.pure v : Eval α)) s (.done v s) :=
  of_eq fun _ => rfl

/-- An evaluation that spends fuel on nothing but its parts. -/
theorem succ {run whole : Nat → Eval α} {r : Result α}
    (hwhole : ∀ fuel, whole (fuel + 1) s = run fuel s) (h : Reaches run s r) :
    Reaches whole s r := by
  obtain ⟨k, hk⟩ := h
  refine ⟨k + 1, ?_⟩
  rintro (_ | fuel) hfuel
  · omega
  · rw [hwhole, hk fuel (by omega)]

theorem bind {first : Nat → Eval α} {second : Nat → α → Eval β} {v : α} {r : Result β}
    (h₁ : Reaches first s (.done v t)) (h₂ : Reaches (second · v) t r) :
    Reaches (fun fuel => first fuel >>= second fuel) s r := by
  obtain ⟨k, hk⟩ := h₁
  obtain ⟨l, hl⟩ := h₂
  refine ⟨max k l, fun fuel hfuel => ?_⟩
  show (first fuel >>= second fuel) s = r
  rw [Eval.bind_apply, hk fuel (by omega)]
  exact hl fuel (by omega)

theorem bind_fault {first : Nat → Eval α} {second : Nat → α → Eval β} {f : Fault}
    (h : Reaches first s (.fault f t)) :
    Reaches (fun fuel => first fuel >>= second fuel) s (.fault f t) := by
  obtain ⟨k, hk⟩ := h
  refine ⟨k, fun fuel hfuel => ?_⟩
  show (first fuel >>= second fuel) s = .fault f t
  rw [Eval.bind_apply, hk fuel hfuel]

end Reaches

end Stampline
