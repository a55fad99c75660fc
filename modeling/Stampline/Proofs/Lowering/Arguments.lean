import Stampline.Lowering.Code
import Stampline.Proofs.Lowering.Scopes

/-!
# Arguments

How the arguments of a call reach the parameters. Code generation settles which position every
argument goes to; a call begins with bindings by name. That both come to the same is
`bindArguments_begins`: the positions are a permutation of those of the parameters, and names of
parameters are distinct.
-/

namespace Stampline

/-! ## Positions -/

/-- The names of parameters. -/
abbrev Function.paramNames (f : Function) : List String := f.params.map (·.name)

theorem bindKeywords_eq_ok {f : Function} : ∀ {keywords : List Keyword} {bound ks : List Nat},
    bindKeywords f keywords bound = .ok ks →
      ks.map (f.paramNames[·]?) = keywords.map (some ·.name) ∧ ks.Nodup ∧ ∀ k ∈ ks, k ∉ bound
  | [], bound, ks, h => by
    obtain rfl : [] = ks := Except.ok.inj h
    simp
  | .mk span name value :: keywords, bound, ks, h => by
    unfold bindKeywords at h
    split at h
    · simp at h
    rename_i position hposition
    split at h
    · simp at h
    rename_i hbound
    cases hrest : bindKeywords f keywords (position :: bound) with
    | error c => simp [hrest, Except.map] at h
    | ok rest =>
      obtain rfl : position :: rest = ks := by simpa [hrest, Except.map] using h
      obtain ⟨hnames, hnodup, hfresh⟩ := bindKeywords_eq_ok hrest
      obtain ⟨hlt, hname, -⟩ := List.findIdx?_eq_some_iff_getElem.1 hposition
      simp only [List.mem_cons, not_or] at hfresh
      refine ⟨?_, ?_, ?_⟩
      · rw [List.map_cons, List.map_cons, hnames]
        simpa [Keyword.name, hlt] using hname
      · exact List.nodup_cons.2 ⟨fun hmem => (hfresh _ hmem).1 rfl, hnodup⟩
      · rintro k (_ | ⟨_, hk⟩)
        · simpa using hbound
        · exact (hfresh k hk).2

/-- The names that the arguments of a call are bound to, in the order of the source. -/
def Function.boundNames (f : Function) (given : Nat) (keywords : List Keyword) : List String :=
  f.paramNames.take given ++ keywords.map Keyword.name

/-- The arguments of a call go to `positions`: the positional ones to the first parameters, those by
keyword to the parameters of their names, and every parameter gets exactly one. -/
structure BindsAll (f : Function) (given : Nat) (keywords : List Keyword) (positions : List Nat) :
    Prop where
  given_le : given ≤ f.params.length
  names : positions.map (f.paramNames[·]?) = (f.boundNames given keywords).map some
  perm : positions.Perm (List.range f.params.length)
  in_order : keywords = [] → positions = List.range f.params.length

/-- Arguments are bound to all parameters if no parameter was found without one. -/
theorem mem_boundPositions {f : Function} {given : Nat} {keywords : List Keyword} {ks : List Nat}
    (hgiven : given ≤ f.params.length)
    (hnames : ks.map (f.paramNames[·]?) = keywords.map (some ·.name))
    (hall : f.params.zipIdx.find? (fun p => !(List.range given ++ ks).contains p.2) = none) (i : Nat) :
    i ∈ List.range given ++ ks ↔ i ∈ List.range f.params.length := by
  constructor
  · intro hi
    rw [List.mem_range]
    rcases List.mem_append.1 hi with hi | hi
    · exact Nat.lt_of_lt_of_le (List.mem_range.1 hi) hgiven
    · have hname : f.paramNames[i]? ∈ keywords.map (some ·.name) :=
        hnames ▸ List.mem_map.2 ⟨i, hi, rfl⟩
      obtain ⟨k, -, hk⟩ := List.mem_map.1 hname
      simpa using (List.getElem?_eq_some_iff.1 hk.symm).1
  · intro hi
    have hi := List.mem_range.1 hi
    have hbound := List.find?_eq_none.1 hall (f.params[i], i)
      (List.mem_iff_getElem?.2 ⟨i, by simp [hi]⟩)
    simpa only [List.contains_eq_mem, Bool.not_eq_true', decide_eq_false_iff_not,
      Decidable.not_not] using hbound

theorem bindArguments_eq_ok {span : Option Span} {f : Function} {given : Nat}
    {keywords : List Keyword} {positions : List Nat}
    (h : bindArguments span f given keywords = .ok positions) :
    BindsAll f given keywords positions := by
  unfold bindArguments at h
  by_cases hgiven : f.params.length < given
  · simp [hgiven, throw, throwThe, MonadExceptOf.throw, bind, Except.bind] at h
  cases hk : bindKeywords f keywords (List.range given) with
  | error c => simp [hgiven, hk, bind, Except.bind] at h
  | ok ks =>
    simp only [hgiven, if_false, hk, bind, Except.bind, pure, Except.pure] at h
    split at h
    · simp [throw, throwThe, MonadExceptOf.throw] at h
    rename_i hall
    obtain rfl := Except.ok.inj h
    obtain ⟨hnames, hnodup, hfresh⟩ := bindKeywords_eq_ok hk
    have hmem := mem_boundPositions (Nat.not_lt.1 hgiven) hnames hall
    refine ⟨Nat.not_lt.1 hgiven, ?_, ?_, ?_⟩
    · rw [List.map_append, hnames, Function.boundNames, List.map_append, List.map_map]
      congr 1
      refine List.ext_getElem? fun i => ?_
      by_cases hi : i < given
      · simp [hi, List.getElem?_eq_getElem (show i < f.params.length by omega)]
      · have hrange : (List.range given).length ≤ i := by
          rw [List.length_range]
          exact Nat.not_lt.1 hi
        have htake : (f.paramNames.take given).length ≤ i := by
          rw [List.length_take]
          omega
        rw [List.getElem?_map, List.getElem?_map, List.getElem?_eq_none hrange,
          List.getElem?_eq_none htake]
        rfl
    · refine (List.perm_ext_iff_of_nodup ?_ List.nodup_range).2 hmem
      refine List.nodup_append.2 ⟨List.nodup_range, hnodup, ?_⟩
      rintro i hi j hj rfl
      exact hfresh i hj hi
    · rintro rfl
      obtain rfl : [] = ks := Except.ok.inj hk
      have : ∀ i, i < given ↔ i < f.params.length := by simpa using hmem
      have h₁ := this given
      have h₂ := this f.params.length
      rw [List.append_nil, show given = f.params.length by omega]

/-! ## Values -/

/-- The values of parameters in their order, given where the values `values` go. -/
def boundValues (params : Nat) (positions : List Nat) (values : List Int64) : List Int64 :=
  (List.range params).map fun p => ((positions.zip values).lookup p).getD 0

/-- A function of the program begins with `locals` when it is called with `values` in the order of
its parameters. -/
def Function.Begins (f : Function) (values : List Int64) (locals : Bindings) : Prop :=
  values.length = f.params.length ∧
    ∀ id, locals.get? id = (f.locals.idxOf? id).map fun slot => (values[slot]?).getD 0

/-- A key of distinct keys is bound to the value at its place. -/
theorem lookup_zip {κ α : Type} [BEq κ] [LawfulBEq κ] : ∀ {keys : List κ} (values : List α)
    {i : Nat} {k : κ}, keys.Nodup → keys[i]? = some k → (keys.zip values).lookup k = values[i]?
  | [], values, i, k, hnodup, hk => by simp at hk
  | _ :: _, [], i, k, hnodup, hk => by simp
  | _ :: keys, v :: values, 0, k, hnodup, hk => by
    obtain rfl := Option.some.inj hk
    simp
  | key :: keys, v :: values, i + 1, k, hnodup, hk => by
    rw [List.nodup_cons] at hnodup
    have hk : keys[i]? = some k := hk
    have hne : (k == key) = false :=
      beq_eq_false_iff_ne.2 fun h => hnodup.1 (h ▸ List.mem_of_getElem? hk)
    rw [List.zip_cons_cons, List.lookup_cons, hne, lookup_zip values hnodup.2 hk]
    rfl

/-- Positional arguments for all parameters are in order as they are. -/
theorem boundValues_range {values : List Int64} {params : Nat} (hlength : values.length = params) :
    boundValues params (List.range params) values = values := by
  subst hlength
  refine List.ext_getElem (by simp [boundValues]) fun i _ hi => ?_
  have : ((List.range values.length).zip values).lookup i = values[i]? :=
    lookup_zip values List.nodup_range (by simp [hi])
  simp [boundValues, this, hi]

theorem Bindings.get?_setAll (id : String) : ∀ (pairs : List (String × Int64)) (b : Bindings),
    (pairs.map (·.1)).Nodup → (b.setAll pairs).get? id = (pairs.lookup id).or (b.get? id)
  | [], b, _ => by simp [Bindings.setAll]
  | (n, v) :: pairs, b, h => by
    rw [List.map_cons, List.nodup_cons] at h
    show ((b.set n v).setAll pairs).get? id = _
    rw [Bindings.get?_setAll id pairs _ h.2, Bindings.get?_set, List.lookup_cons]
    by_cases hid : id = n
    · subst hid
      have : pairs.lookup id = none := by
        rw [List.lookup_eq_none_iff]
        rintro ⟨m, w⟩ hm
        simpa using fun heq : id = m => h.1 (heq ▸ List.mem_map.2 ⟨_, hm, rfl⟩)
      simp [this]
    · simp [hid, beq_eq_false_iff_ne.2 hid]

/-- Names that are all bound to zero. -/
theorem Bindings.get?_setAll_zero (id : String) : ∀ (names : List String) (b : Bindings),
    (b.setAll (names.map fun n => (n, 0))).get? id = if id ∈ names then some 0 else b.get? id
  | [], b => by simp [Bindings.setAll]
  | n :: names, b => by
    show ((b.set n 0).setAll (names.map fun n => (n, 0))).get? id = _
    rw [Bindings.get?_setAll_zero id names, Bindings.get?_set]
    by_cases hmem : id ∈ names <;> by_cases hid : id = n <;> simp [hmem, hid]

theorem distinctAfter_eq_append : ∀ (names before : List String),
    ∃ more, distinctAfter before names = before ++ more ∧
      ∀ id, id ∈ before ++ more ↔ id ∈ before ∨ id ∈ names
  | [], before => ⟨[], by simp [distinctAfter], by simp⟩
  | n :: names, before => by
    unfold distinctAfter
    split
    · rename_i hn
      obtain ⟨more, heq, hmem⟩ := distinctAfter_eq_append names before
      refine ⟨more, heq, fun id => ?_⟩
      rw [hmem, List.mem_cons]
      constructor
      · exact Or.imp (fun h => h) .inr
      · rintro (h | rfl | h)
        · exact .inl h
        · exact .inl (by simpa using hn)
        · exact .inr h
    · obtain ⟨more, heq, hmem⟩ := distinctAfter_eq_append names (before ++ [n])
      refine ⟨n :: more, by simpa using heq, fun id => ?_⟩
      have := hmem id
      simp only [List.append_assoc, List.cons_append, List.nil_append, List.mem_append,
        List.mem_cons, List.not_mem_nil, or_false] at this
      simp only [List.mem_append, List.mem_cons, this, or_assoc]

theorem mem_distinctAfter {names : List String} {id : String} :
    id ∈ distinctAfter [] names ↔ id ∈ names := by
  obtain ⟨more, heq, hmem⟩ := distinctAfter_eq_append names []
  rw [heq, hmem]
  simp

theorem Function.mem_locals {f : Function} {id : String} :
    id ∈ f.locals ↔ id ∈ f.paramNames ∨ id ∈ targetsIn f.body := by
  obtain ⟨more, heq, hmem⟩ := distinctAfter_eq_append (targetsIn f.body) f.paramNames
  rw [Function.locals, heq, hmem]

theorem Function.length_params_le (f : Function) : f.params.length ≤ f.locals.length := by
  obtain ⟨more, heq, -⟩ := distinctAfter_eq_append (targetsIn f.body) f.paramNames
  rw [Function.locals, heq]
  simp [Function.paramNames]

section Begins

variable {functions : List Function} {f : Function} {d : Definition} {given : Nat}
  {keywords : List Keyword} {positions : List Nat} {args values : List Int64}

theorem BindsAll.length_positions (h : BindsAll f given keywords positions) :
    positions.length = given + keywords.length := by
  have := congrArg List.length h.names
  have hle := h.given_le
  simpa [Function.boundNames, Nat.min_eq_left hle] using this

theorem BindsAll.arity (h : BindsAll f given keywords positions) :
    given + keywords.length = f.params.length := by
  rw [← h.length_positions, h.perm.length_eq, List.length_range]

theorem filterMap_of_map_eq {α β : Type} {g : α → Option β} {xs : List α} {ys : List β}
    (h : xs.map g = ys.map some) : xs.filterMap g = ys := by
  have hvalues := congrArg (List.filterMap id) h
  simpa [List.filterMap_map] using hvalues

/-- The names that a call binds are those of the parameters. -/
theorem BindsAll.perm_names (h : BindsAll f given keywords positions) :
    (f.boundNames given keywords).Perm f.paramNames := by
  have hrange : (List.range f.params.length).map (f.paramNames[·]?) = f.paramNames.map some := by
    refine List.ext_getElem (by simp) fun i _ hi => ?_
    have hi : i < f.params.length := by simpa using hi
    simp [hi]
  have := h.perm.filterMap (f.paramNames[·]?)
  rwa [filterMap_of_map_eq h.names, filterMap_of_map_eq hrange] at this

/-- The pairs of names and values with which a call binds its arguments. -/
theorem BindsAll.pairs_eq (h : BindsAll f given keywords positions) (hargs : args.length = given) :
    f.paramNames.zip args ++ (keywords.map Keyword.name).zip values =
      (f.boundNames given keywords).zip (args ++ values) := by
  have hle := h.given_le
  have htake : f.paramNames.zip args = (f.paramNames.take given).zip args := by
    have := @List.take_zipWith _ _ _ Prod.mk f.paramNames args given
    rwa [List.take_of_length_le (by simp [List.length_zipWith]; omega),
      List.take_of_length_le (l := args) (by omega)] at this
  rw [Function.boundNames, List.zip_append (by simp [hargs, hle]), htake]

/-- What a call binds a parameter to is the value at the place of the parameter. -/
theorem BindsAll.lookup_param (h : BindsAll f given keywords positions)
    (hnodup : f.paramNames.Nodup) (hargs : args.length = given)
    (hvalues : values.length = keywords.length) {id : String} {slot : Nat}
    (hid : f.paramNames.idxOf? id = some slot) :
    ∃ v, ((f.boundNames given keywords).zip (args ++ values)).lookup id = some v ∧
      (boundValues f.params.length positions (args ++ values))[slot]? = some v := by
  obtain ⟨hlt, hname, -⟩ := List.idxOf?_eq_some_iff.1 hid
  have hslot : slot < f.params.length := by simpa using hlt
  obtain ⟨j, hj⟩ := List.mem_iff_getElem?.1 (h.perm.mem_iff.2 (List.mem_range.2 hslot))
  have hjname : (f.boundNames given keywords)[j]? = some id := by
    have hat : some (f.paramNames[slot]?) = ((f.boundNames given keywords)[j]?).map some := by
      have := congrArg (·[j]?) h.names
      simpa only [List.getElem?_map, hj, Option.map_some] using this
    rw [List.getElem?_eq_getElem hlt, hname] at hat
    cases hb : (f.boundNames given keywords)[j]? with
    | none => simp [hb] at hat
    | some name => simpa [hb] using hat.symm
  have hvalue : (args ++ values)[j]? ≠ none := by
    have := (List.getElem?_eq_some_iff.1 hj).1
    rw [h.length_positions] at this
    simp [hargs, hvalues]
    omega
  obtain ⟨v, hv⟩ := Option.ne_none_iff_exists'.1 hvalue
  refine ⟨v, ?_, ?_⟩
  · rw [lookup_zip _ (h.perm_names.symm.nodup hnodup) hjname, hv]
  · simp [boundValues, hslot, lookup_zip _ (h.perm.symm.nodup List.nodup_range) hj, hv]

/-- A call binds nothing but parameters. -/
theorem BindsAll.lookup_of_not_mem (h : BindsAll f given keywords positions) {id : String}
    (hid : id ∉ f.paramNames) {all : List Int64} :
    ((f.boundNames given keywords).zip all).lookup id = none := by
  rw [List.lookup_eq_none_iff]
  rintro ⟨n, v⟩ hn
  exact bne_iff_ne.2 fun heq => hid (h.perm_names.mem_iff.1 (heq ▸ (List.of_mem_zip hn).1))

/-- A call whose arguments bind all parameters begins with their values. -/
theorem BindsAll.begins (h : BindsAll f given keywords positions) (hnodup : f.paramNames.Nodup)
    (hd : Finds functions f d) (hargs : args.length = given)
    (hvalues : values.length = keywords.length) :
    ∃ b, d.locals? args ((keywords.map Keyword.name).zip values) = some b ∧
      f.Begins (boundValues f.params.length positions (args ++ values)) b := by
  have hle := h.given_le
  have hfst : ((f.boundNames given keywords).zip (args ++ values)).map (·.1) =
      f.boundNames given keywords :=
    List.map_fst_zip (by
      simp only [Function.boundNames, List.length_append, List.length_take, List.length_map, hargs,
        hvalues]
      omega)
  have hlocals : d.locals? args ((keywords.map Keyword.name).zip values) =
      some ((Bindings.setAll ∅ ((targetsIn d.body).map fun name => (name, 0))).setAll
        ((f.boundNames given keywords).zip (args ++ values))) := by
    rw [Definition.locals?, hd.params, h.pairs_eq hargs, hfst, if_pos]
    refine ⟨by rw [hargs]; simpa using hle, List.isPerm_iff.2 h.perm_names⟩
  refine ⟨_, hlocals, by simp [boundValues], fun id => ?_⟩
  have hdistinct : (((f.boundNames given keywords).zip (args ++ values)).map (·.1)).Nodup := by
    rw [hfst]
    exact h.perm_names.symm.nodup hnodup
  rw [Bindings.get?_setAll id _ _ hdistinct, Bindings.get?_setAll_zero, Bindings.get?_empty, hd.body]
  -- The locals of the function are its parameters and, behind them, the other names it assigns.
  obtain ⟨more, hmore, hmem⟩ := distinctAfter_eq_append (targetsIn f.body) f.paramNames
  have hslots : f.locals.idxOf? id = (f.paramNames.idxOf? id).or
      ((more.idxOf? id).map (· + f.paramNames.length)) := by
    rw [Function.locals, hmore, List.idxOf?, List.findIdx?_append]
  rw [hslots]
  cases hid : f.paramNames.idxOf? id with
  | some slot =>
    obtain ⟨v, hlookup, hvalue⟩ := h.lookup_param hnodup hargs hvalues hid
    simp [hlookup, hvalue]
  | none =>
    have hnot : id ∉ f.paramNames := List.idxOf?_eq_none_iff.1 hid
    have hid' := hmem id
    simp only [List.mem_append, hnot, false_or] at hid'
    rw [h.lookup_of_not_mem hnot]
    cases hm : more.idxOf? id with
    | some slot =>
      have : id ∈ more := by simpa using congrArg Option.isSome hm
      simp [hid'.1 this, boundValues]
    | none => simp [mt hid'.2 (List.idxOf?_eq_none_iff.1 hm)]

end Begins

end Stampline
