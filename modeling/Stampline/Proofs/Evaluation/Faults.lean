import Stampline.Proofs.Evaluation.Parametric

/-!
# The faults of programs

By its meaning a program faults for three reasons and no other ones: it divides by zero, a quotient does
not fit, or a global has no value. Otherwise it is refused a function by the limits it is evaluated
within. If it is not, then it comes to the same within all limits that let in as much.
-/

namespace Stampline

/-- The faults that belong to the meaning of programs. -/
inductive Fault.OfMeaning : Fault → Prop where
  | divisionByZero : OfMeaning .divisionByZero
  | overflow : OfMeaning .overflow
  | undefinedName (name : String) : OfMeaning (.undefinedName name)

/-- The fault is one with which functions are refused. -/
def Limits.Refuses (limits : Limits) (f : Fault) : Prop := ∃ live, limits live = some f

theorem BinaryOp.ofMeaning_of_apply {op : BinaryOp} {a b : Int64} {f : Fault}
    (h : op.apply a b = .error f) : f.OfMeaning := by
  cases op with
  | add | sub | mul => cases h
  | div =>
    unfold BinaryOp.apply at h
    dsimp only at h
    split at h
    · obtain rfl := Except.error.inj h
      exact .divisionByZero
    split at h
    · obtain rfl := Except.error.inj h
      exact .overflow
    · cases h
  | rem =>
    unfold BinaryOp.apply at h
    dsimp only at h
    split at h
    · obtain rfl := Except.error.inj h
      exact .divisionByZero
    · cases h

namespace Eval

variable {α β : Type} {limits limits' : Limits}

/-- What ends the first evaluation of a sequence early ends the sequence. -/
theorem bind_eq_fault {first : Eval α} {second : α → Eval β} {s t : Store} {f : Fault}
    (h : (first >>= second) s = .fault f t) :
    first s = .fault f t ∨ ∃ value s', first s = .done value s' ∧ second value s' = .fault f t := by
  rw [bind_apply] at h
  cases hfirst : first s with
  | done value s' =>
    rw [hfirst] at h
    exact .inr ⟨value, s', rfl, h⟩
  | fault f' t' =>
    rw [hfirst] at h
    obtain ⟨rfl, rfl⟩ := Result.fault.inj h
    exact .inl rfl
  | stuck =>
    rw [hfirst] at h
    cases h
  | unfinished =>
    rw [hfirst] at h
    cases h

/-! ## Reasons -/

/-- An evaluation faults for reasons that belong to the meaning of programs or is refused a function, if
it faults. -/
def Lawful (limits : Limits) (x : Eval α) : Prop :=
  ∀ s f t, x s = .fault f t → f.OfMeaning ∨ limits.Refuses f

theorem parametric_lawful (limits : Limits) :
    Parametric limits limits fun x _ => x.Lawful limits where
  pure _ _ _ _ h := by cases h
  bind hx hf s f t h := by
    rcases bind_eq_fault h with h | ⟨value, s', -, h⟩
    · exact hx s f t h
    · exact hf value s' f t h
  stuck _ _ _ h := by cases h
  unfinished _ _ _ h := by cases h
  readGlobal name s f t h := by
    unfold Eval.readGlobal at h
    split at h
    · cases h
    · obtain ⟨rfl, rfl⟩ := Result.fault.inj h
      exact .inl (.undefinedName name)
  writeGlobal _ _ _ _ _ h := by cases h
  print _ _ _ _ h := by cases h
  apply op a b s f t h := by
    cases hvalue : op.apply a b with
    | ok value =>
      rw [hvalue] at h
      cases h
    | error f' =>
      rw [hvalue] at h
      obtain ⟨rfl, rfl⟩ := Result.fault.inj h
      exact .inl (BinaryOp.ofMeaning_of_apply hvalue)
  enter live x _ hx s f t h := by
    cases hlive : limits live with
    | some f' =>
      rw [Limits.enter_of_refused hlive] at h
      obtain ⟨rfl, rfl⟩ := Result.fault.inj h
      exact .inr ⟨live, hlive⟩
    | none =>
      rw [Limits.enter_of_free hlive] at h
      exact hx s f t h

/-! ## Other limits -/

/-- The second evaluation comes to what the first one comes to, unless the first is refused a
function. -/
def Unrestrained (limits : Limits) (x y : Eval α) : Prop :=
  ∀ s, y s = x s ∨ ∃ f t, x s = .fault f t ∧ limits.Refuses f

theorem Unrestrained.refl (x : Eval α) : Unrestrained limits x x := fun _ => .inl rfl

theorem parametric_unrestrained (h : limits.Within limits') :
    Parametric limits limits' fun x y => Unrestrained limits x y where
  pure _ := .refl _
  bind {_ _ x y f g} hx hf s := by
    rw [bind_apply, bind_apply]
    rcases hx s with hxs | ⟨f, t, hxs, hrefuses⟩
    · rw [hxs]
      cases x s with
      | done value s' => exact hf value s'
      | _ => exact .inl rfl
    · rw [hxs]
      exact .inr ⟨f, t, rfl, hrefuses⟩
  stuck := .refl _
  unfinished := .refl _
  readGlobal _ := .refl _
  writeGlobal _ _ := .refl _
  print _ := .refl _
  apply _ _ _ := .refl _
  enter live x y hx s := by
    cases hlive : limits live with
    | some f =>
      rw [Limits.enter_of_refused hlive]
      exact .inr ⟨f, s, rfl, live, hlive⟩
    | none =>
      rw [Limits.enter_of_free hlive, Limits.enter_of_free (h live hlive)]
      exact hx s

end Eval

/-- A program faults for reasons of its meaning or is refused a function, if it faults. -/
theorem Program.lawful_meaning (p : Program) (limits : Limits) (fuel : Nat) :
    (p.meaning limits fuel).Lawful limits :=
  (Eval.parametric_lawful limits).meaning p fuel

/-- A program that is refused no function comes to the same within limits that let in as much. -/
theorem Program.unrestrained_meaning {limits limits' : Limits} (h : limits.Within limits')
    (p : Program) (fuel : Nat) :
    (p.meaning limits fuel).Unrestrained limits (p.meaning limits' fuel) :=
  (Eval.parametric_unrestrained h).meaning p fuel

end Stampline
