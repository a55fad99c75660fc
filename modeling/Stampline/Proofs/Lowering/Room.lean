import Stampline.Evaluation.Limits
import Stampline.Wasm.State

/-!
# The limits of the engine

The machine keeps account of the room that is left to it. What it lets in can be said without an
account, of the functions that are live: the engine refuses a function that has more slots than can be
told apart, and one for which there is no room beside the others. These are the limits within which a
program is evaluated that runs in the machine.
-/

namespace Stampline

open Wasm (Room maxSlots)

/-- The room that is taken for functions. -/
def cellsOf : List Activation → Nat
  | [] => 0
  | a :: live => a.waiting + a.slots + cellsOf live

/-- The limits of the engine: 30000 slots of a function, and 1000 functions that take no more than
1000000 cells together. -/
def Limits.engine : Limits
  | [] => none
  | a :: live =>
    if maxSlots < a.slots then some .tooManyLocals
    else if Room.full.frames < (a :: live).length ∨ Room.full.cells < cellsOf (a :: live) then
      some .stackExhausted
    else none

namespace Limits

theorem engine_cons (waiting slots : Nat) (live : List Activation) :
    engine (⟨waiting, slots⟩ :: live) =
      if maxSlots < slots then some .tooManyLocals
      else if Room.full.frames < live.length + 1 ∨ Room.full.cells < waiting + slots + cellsOf live then
        some .stackExhausted
      else none := rfl

/-- The engine has two ways to refuse a function. -/
theorem eq_of_engine {live : List Activation} {f : Fault} (h : engine live = some f) :
    f = .stackExhausted ∨ f = .tooManyLocals := by
  cases live with
  | nil => cases h
  | cons a live =>
    obtain ⟨waiting, slots⟩ := a
    rw [engine_cons] at h
    by_cases hslots : maxSlots < slots
    · rw [if_pos hslots] at h
      exact .inr (Option.some.inj h).symm
    · rw [if_neg hslots, Option.ite_none_right_eq_some] at h
      exact .inl (Option.some.inj h.2).symm

end Limits

namespace Wasm.Room

/-- The room that is left while functions are live. -/
structure LeftBy (room : Room) (live : List Activation) : Prop where
  frames : room.frames + live.length = full.frames
  cells : room.cells + cellsOf live = full.cells

theorem leftBy_full : full.LeftBy [] := ⟨rfl, rfl⟩

variable {room inner : Room} {live : List Activation} {waiting slots : Nat} {f : Fault}

/-- The machine refuses a function as the limits do. -/
theorem LeftBy.engine_of_error (h : room.LeftBy live) (hf : room.enter waiting slots = .error f) :
    Limits.engine (⟨waiting, slots⟩ :: live) = some f := by
  obtain ⟨hframes, hcells⟩ := h
  rw [Limits.engine_cons]
  unfold enter at hf
  by_cases hslots : maxSlots < slots
  · rw [if_pos hslots] at hf ⊢
    rw [Except.error.inj hf]
  · rw [if_neg hslots] at hf ⊢
    split at hf
    next hnone =>
      rw [if_pos (.inl (by omega)), Except.error.inj hf]
    next frames hsome =>
      split at hf
      · cases hf
      · rw [if_pos (.inr (by omega)), Except.error.inj hf]

/-- The machine lets in a function as the limits do, and has the room that is left then. -/
theorem LeftBy.engine_of_ok (h : room.LeftBy live) (hinner : room.enter waiting slots = .ok inner) :
    Limits.engine (⟨waiting, slots⟩ :: live) = none ∧ inner.LeftBy (⟨waiting, slots⟩ :: live) := by
  obtain ⟨hframes, hcells⟩ := h
  rw [Limits.engine_cons]
  unfold enter at hinner
  by_cases hslots : maxSlots < slots
  · rw [if_pos hslots] at hinner
    cases hinner
  · rw [if_neg hslots] at hinner ⊢
    split at hinner
    · cases hinner
    next frames hsome =>
      split at hinner
      next hroom =>
        obtain rfl := Except.ok.inj hinner
        refine ⟨if_neg (by omega), ?_, ?_⟩
        · show frames + (live.length + 1) = _
          omega
        · show room.cells - (waiting + slots) + (waiting + slots + cellsOf live) = _
          omega
      · cases hinner

end Wasm.Room

end Stampline
