/-!
# Work that may fail

What is known of the parts of a sequence of steps once it is known how the whole ends, and when two
sequences end alike.
-/

namespace Stampline

theorem mapM_eq_some {α β : Type} {f : α → Option β} : ∀ {xs : List α} {ys : List β},
    xs.map f = ys.map some → xs.mapM f = some ys
  | [], [], _ => rfl
  | [], _ :: _, h => by simp at h
  | _ :: _, [], h => by simp at h
  | x :: xs, y :: ys, h => by
    simp only [List.map_cons, List.cons.injEq] at h
    rw [List.mapM_cons, h.1, mapM_eq_some h.2]
    rfl

theorem bind_eq_ok {ε α β : Type} {first : Except ε α} {second : α → Except ε β} {b : β} :
    (first >>= second) = .ok b ↔ ∃ a, first = .ok a ∧ second a = .ok b := by
  cases first <;> simp [bind, Except.bind]

theorem map_eq_of_mapM_eq_ok {ε α β : Type} {f : α → Except ε β} : ∀ {xs : List α} {ys : List β},
    xs.mapM f = .ok ys → xs.map f = ys.map .ok
  | [], ys, h => by
    obtain rfl : [] = ys := by simpa [pure, Except.pure] using h
    rfl
  | x :: xs, ys, h => by
    rw [List.mapM_cons] at h
    obtain ⟨y, hy, h⟩ := bind_eq_ok.1 h
    obtain ⟨zs, hzs, h⟩ := bind_eq_ok.1 h
    obtain rfl := Except.ok.inj h
    rw [List.map_cons, List.map_cons, hy, map_eq_of_mapM_eq_ok hzs]

/-- What holds of the results of any two elements that are in a relation holds of all results in their
order, where the elements are in that relation. -/
theorem pairwise_of_map_eq_ok {ε α β : Type} {f : α → Except ε β} {R : α → α → Prop}
    {S : β → β → Prop} (hresults : ∀ a b x y, R a b → f a = .ok x → f b = .ok y → S x y) {xs : List α}
    {ys : List β} (hmap : xs.map f = ys.map .ok) (h : xs.Pairwise R) : ys.Pairwise S := by
  induction h generalizing ys with
  | nil =>
    obtain rfl : ys = [] := List.map_eq_nil_iff.1 hmap.symm
    exact .nil
  | @cons a as hfirst hrest ih =>
    obtain ⟨y, zs, rfl, hy, hzs⟩ := List.map_eq_cons_iff.1 hmap.symm
    refine .cons ?_ (ih hzs.symm)
    intro z hz
    have hmem : Except.ok z ∈ as.map f := hzs ▸ List.mem_map_of_mem hz
    obtain ⟨b, hb, hfb⟩ := List.mem_map.1 hmem
    exact hresults a b y z (hfirst b hb) hy.symm hfb

/-- A list is worked off in vain only if one of its elements is. -/
theorem exists_of_mapM_eq_error {ε α β : Type} {f : α → Except ε β} {e : ε} : ∀ {xs : List α},
    xs.mapM f = .error e → ∃ x ∈ xs, f x = .error e
  | [], h => by cases h
  | x :: xs, h => by
    rw [List.mapM_cons] at h
    cases hx : f x with
    | error fault =>
      rw [hx] at h
      obtain rfl : fault = e := Except.error.inj h
      exact ⟨x, List.mem_cons_self, hx⟩
    | ok y =>
      rw [hx] at h
      cases hxs : xs.mapM f with
      | ok ys =>
        rw [hxs] at h
        cases h
      | error fault =>
        rw [hxs] at h
        obtain rfl : fault = e := Except.error.inj h
        obtain ⟨x', hmem, hx'⟩ := exists_of_mapM_eq_error hxs
        exact ⟨x', List.mem_cons_of_mem _ hmem, hx'⟩

/-- What goes on with equal results up to errors goes on equally. -/
theorem bind_eq_mapError {ε α β : Type} {x y : Except ε α} {f g : α → Except ε β} {k : ε → ε}
    (hxy : y = x.mapError k) (hfg : ∀ a, g a = (f a).mapError k) :
    y >>= g = (x >>= f).mapError k := by
  subst hxy
  cases x with
  | error e => rfl
  | ok a => exact hfg a

theorem mapM_mapError {ε α β : Type} {f g : α → Except ε β} {h : α → α} {k : ε → ε}
    (hfg : ∀ a, g (h a) = (f a).mapError k) : ∀ as : List α,
    (as.map h).mapM g = (as.mapM f).mapError k
  | [] => rfl
  | a :: as => by
    rw [List.map_cons, List.mapM_cons, List.mapM_cons, hfg, mapM_mapError hfg as]
    cases f a with
    | error e => rfl
    | ok b => cases as.mapM f <;> rfl

end Stampline
