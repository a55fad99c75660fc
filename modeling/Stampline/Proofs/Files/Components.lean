import Stampline.Files.Path

/-!
# The components of paths

What a path is made of once the parts without effect are left out of it. Paths are compared component
by component, which is not how their texts compare: the point of `a.py` comes before the slash of
`a/x.py`, and the name `a` comes before the name `a.py`.
-/

namespace Stampline.Path

/-- A step of a path. -/
inductive Component where
  /-- The directory above all others. -/
  | root
  /-- The directory where paths begin. -/
  | here
  /-- The directory above. -/
  | above
  /-- An entry of the directory. -/
  | name (text : String)
deriving DecidableEq, Repr

namespace Component

/-- The place of a component among those that are not of its kind. -/
def rank : Component → Nat
  | root => 0
  | here => 1
  | above => 2
  | name _ => 3

/-- The name in a component, if there is one. -/
def text : Component → String
  | name text => text
  | _ => ""

/-- Names come last, and in the order of their texts. -/
instance : LT Component := ⟨fun a b => a.rank < b.rank ∨ a.rank = b.rank ∧ a.text < b.text⟩

instance (a b : Component) : Decidable (a < b) :=
  inferInstanceAs (Decidable (a.rank < b.rank ∨ a.rank = b.rank ∧ a.text < b.text))

theorem name_lt_name {a b : String} (h : a < b) : name a < name b := Or.inr ⟨rfl, h⟩

protected theorem lt_irrefl (a : Component) : ¬a < a := by
  rintro (h | ⟨-, h⟩)
  · exact Nat.lt_irrefl _ h
  · exact String.lt_irrefl _ h

instance : Std.Irrefl ((· < ·) : Component → Component → Prop) := ⟨Component.lt_irrefl⟩

/-- The component that a part is. A part that stays where it is is none. -/
def ofPart? (part : String) : Option Component :=
  if part = "" ∨ part = "." then none
  else if part = ".." then some above
  else some (name part)

end Component

/-- The components of a path. Where a path begins says whether it leads down from the root, and
behind its beginning the parts that stay where they are do not count. -/
def components (path : String) : List Component :=
  (if isAbsolute path then [.root] else if (parts path).head? = some "." then [.here] else []) ++
    (parts path).filterMap Component.ofPart?

/-- Whether a text can be the name of an entry of a directory. -/
def IsName (name : String) : Prop := name ≠ "" ∧ name ≠ "." ∧ name ≠ ".." ∧ '/' ∉ name.toList

instance (name : String) : Decidable (IsName name) :=
  inferInstanceAs (Decidable (name ≠ "" ∧ name ≠ "." ∧ name ≠ ".." ∧ '/' ∉ name.toList))

/-- The path of what names lead to from a directory. -/
def below (path : String) (names : List String) : String := names.foldl join path

/-! ## The parts of joined paths -/

theorem split_ne_nil (cs : List Char) : split cs ≠ [] := by
  cases cs with
  | nil => exact List.cons_ne_nil _ _
  | cons c cs =>
    unfold split
    split
    · exact List.cons_ne_nil _ _
    · split <;> exact List.cons_ne_nil _ _

theorem split_append_slash (cs ds : List Char) : split (cs ++ '/' :: ds) = split cs ++ split ds := by
  induction cs with
  | nil => simp [split]
  | cons c cs ih =>
    rw [List.cons_append, split, split, ih]
    by_cases hc : c = '/'
    · rw [if_pos hc, if_pos hc, List.cons_append]
    · rw [if_neg hc, if_neg hc]
      cases hcs : split cs with
      | nil => exact absurd hcs (split_ne_nil cs)
      | cons part parts => rfl

theorem split_of_not_mem {cs : List Char} (h : '/' ∉ cs) : split cs = [cs] := by
  induction cs with
  | nil => rfl
  | cons c cs ih =>
    rw [List.mem_cons, not_or] at h
    rw [split, if_neg (Ne.symm h.1), ih h.2]

theorem toList_slash : "/".toList = ['/'] := rfl

/-- A joined path has a name as its last part. What is before it are the parts of the directory, less
the empty part that a slash at the end leaves. -/
theorem parts_join (path : String) {name : String} (hname : IsName name) :
    ∃ front, parts (join path name) = front ++ [name] ∧
      (parts path = front ∨ parts path = front ++ [""]) := by
  obtain ⟨-, -, -, hslash⟩ := hname
  have hsplit : split name.toList = [name.toList] := split_of_not_mem hslash
  by_cases hempty : path.toList = []
  · have hpath : path = "" := String.toList_injective hempty
    subst hpath
    refine ⟨[], ?_, .inr rfl⟩
    simp [join, parts, hsplit]
  by_cases hlast : path.toList.getLast? = some '/'
  · obtain ⟨cs, hcs⟩ := List.getLast?_eq_some_iff.1 hlast
    refine ⟨(split cs).map String.ofList, ?_, .inr ?_⟩
    · simp [join, parts, hcs, split_append_slash, hsplit]
    · rw [parts, hcs, split_append_slash, List.map_append]
      rfl
  · have hne : path.isEmpty = false := by simpa using hempty
    have hopen : (path.toList.getLast? == some '/') = false := by simpa using hlast
    refine ⟨parts path, ?_, .inl rfl⟩
    have hjoin : (join path name).toList = path.toList ++ '/' :: name.toList := by
      simp [join, hne, hopen, toList_slash]
    rw [parts, hjoin, split_append_slash, hsplit, List.map_append]
    simp [parts]

theorem isAbsolute_join (path : String) {name : String} (hname : IsName name) :
    isAbsolute (join path name) = isAbsolute path := by
  obtain ⟨-, -, -, hslash⟩ := hname
  unfold isAbsolute
  by_cases hempty : path.toList = []
  · have hpath : path = "" := String.toList_injective hempty
    have hhead : name.toList.head? ≠ some '/' := fun h => hslash (List.mem_of_mem_head? h)
    subst hpath
    simpa [join] using hhead
  · obtain ⟨c, cs, hcs⟩ := List.exists_cons_of_ne_nil hempty
    have hkept : (join path name).toList.head? = path.toList.head? := by
      unfold join
      split <;> simp [hcs]
    rw [hkept]

/-- A joined path has one component more than the path of the directory. -/
theorem components_join (path : String) {name : String} (hname : IsName name) :
    components (join path name) = components path ++ [.name name] := by
  obtain ⟨front, hjoin, hpath⟩ := parts_join path hname
  obtain ⟨hne, hhere, habove, -⟩ := id hname
  have hpart : Component.ofPart? name = some (.name name) := by
    rw [Component.ofPart?, if_neg (not_or.2 ⟨hne, hhere⟩), if_neg habove]
  have hbegins : (parts (join path name)).head? = some "." ↔ (parts path).head? = some "." := by
    rw [hjoin]
    cases front with
    | cons part front => rcases hpath with hpath | hpath <;> simp [hpath]
    | nil =>
      rcases hpath with hpath | hpath
      · exact absurd (List.map_eq_nil_iff.1 hpath) (split_ne_nil _)
      · simp [hpath, hhere]
  have hnamed : (parts path).filterMap Component.ofPart? = front.filterMap Component.ofPart? := by
    rcases hpath with hpath | hpath
    · rw [hpath]
    · simp [hpath, Component.ofPart?]
  unfold components
  simp only [isAbsolute_join path hname, hbegins]
  rw [hjoin, hnamed, List.filterMap_append, List.append_assoc]
  simp [hpart]

/-- The components of what names lead to are those of the directory and the names. -/
theorem components_below (path : String) {names : List String} (h : ∀ name ∈ names, IsName name) :
    components (below path names) = components path ++ names.map .name := by
  induction names generalizing path with
  | nil => exact (List.append_nil _).symm
  | cons name names ih =>
    have hname : IsName name := h name List.mem_cons_self
    have hnames : ∀ n ∈ names, IsName n := fun n hn => h n (List.mem_cons_of_mem _ hn)
    change components (below (join path name) names) = _
    rw [ih _ hnames, components_join path hname, List.append_assoc]
    rfl

/-- The order of the components differs from that of the texts. -/
example : components "d/a/x.py" < components "d/a.py" ∧ "d/a.py" < "d/a/x.py" := by decide +kernel

end Stampline.Path
