/-!
# Bindings

What names stand for. A name is bound to one value at a time, and to bind it again changes its value
and that of no other. Names keep the order in which they were first bound.
-/

namespace Stampline

/-- Binds a name in a list of names and values, in place if it is bound there already. -/
def bindName (name : String) (value : Int64) : List (String × Int64) → List (String × Int64)
  | [] => [(name, value)]
  | (n, v) :: rest => if n = name then (n, value) :: rest else (n, v) :: bindName name value rest

theorem lookup_bindName (name other : String) (value : Int64) (bs : List (String × Int64)) :
    (bindName name value bs).lookup other =
      if other = name then some value else bs.lookup other := by
  induction bs with
  | nil =>
    by_cases h : other = name
    · simp [bindName, h]
    · simp [bindName, List.lookup_cons, h, beq_eq_false_iff_ne.2 h]
  | cons b bs ih =>
    obtain ⟨n, v⟩ := b
    by_cases hn : n = name
    · subst hn
      by_cases h : other = n
      · simp [bindName, h]
      · simp [bindName, List.lookup_cons, h, beq_eq_false_iff_ne.2 h]
    · by_cases h : other = n
      · subst h
        simp [bindName, hn]
      · simp [bindName, hn, List.lookup_cons, beq_eq_false_iff_ne.2 h, ih]

/-- To bind a name adds it to the names, and adds no other. -/
theorem mem_names_bindName {name other : String} {value : Int64} {bs : List (String × Int64)} :
    other ∈ (bindName name value bs).map (·.1) ↔ other = name ∨ other ∈ bs.map (·.1) := by
  induction bs with
  | nil => simp [bindName]
  | cons b bs ih =>
    obtain ⟨n, v⟩ := b
    by_cases hn : n = name
    · subst hn
      simp [bindName]
    · simp only [bindName, hn, if_false, List.map_cons, List.mem_cons, ih]
      exact or_left_comm

theorem nodup_names_bindName (name : String) (value : Int64) {bs : List (String × Int64)}
    (h : (bs.map (·.1)).Nodup) : ((bindName name value bs).map (·.1)).Nodup := by
  induction bs with
  | nil => simp [bindName]
  | cons b bs ih =>
    obtain ⟨n, v⟩ := b
    rw [List.map_cons, List.nodup_cons] at h
    by_cases hn : n = name
    · rw [bindName, if_pos hn, List.map_cons, List.nodup_cons]
      exact h
    · rw [bindName, if_neg hn, List.map_cons, List.nodup_cons, mem_names_bindName]
      exact ⟨fun hm => hm.elim hn h.1, ih h.2⟩

/-- Values of names. -/
structure Bindings where
  /-- Names and values, in the order in which the names were first bound. -/
  pairs : List (String × Int64)
  /-- No name is bound twice. -/
  nodup_names : (pairs.map (·.1)).Nodup
deriving DecidableEq, Repr

namespace Bindings

/-- No name is bound. -/
protected def empty : Bindings := ⟨[], List.nodup_nil⟩

instance : EmptyCollection Bindings := ⟨.empty⟩

instance : Inhabited Bindings := ⟨∅⟩

/-- The value of a name. -/
def get? (b : Bindings) (name : String) : Option Int64 := b.pairs.lookup name

/-- Binds a name to a value. -/
def set (b : Bindings) (name : String) (value : Int64) : Bindings :=
  ⟨bindName name value b.pairs, nodup_names_bindName name value b.nodup_names⟩

@[simp] theorem get?_empty (name : String) : (∅ : Bindings).get? name = none := rfl

/-- A binding changes the value of its name and of no other. -/
@[simp] theorem get?_set (b : Bindings) (name other : String) (value : Int64) :
    (b.set name value).get? other = if other = name then some value else b.get? other :=
  lookup_bindName name other value b.pairs

end Bindings

end Stampline
