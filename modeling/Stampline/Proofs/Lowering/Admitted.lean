import Stampline.Proofs.Lowering.Arguments
import Stampline.Proofs.Lowering.Rules
import Stampline.Proofs.Lowering.Unplaced
import Stampline.Proofs.Lowering.Valid

/-!
# Which programs are lowered

Code generation succeeds exactly on the regions whose nodes keep the rules, and so the programs that are
lowered are the admissible ones. For each form of a tree it is settled which rule makes its code
generation succeed; for a whole region the rules are then those of all of its nodes.
-/

namespace Stampline

/-! ## Code generation that succeeds -/

namespace Emit

variable {α β : Type} {x : Emit α} {P Q : Prop}

/-- Whichever slot is the next, code generation succeeds exactly if `P` holds. -/
def SucceedsIff (x : Emit α) (P : Prop) : Prop := ∀ n, (∃ r, x n = .ok r) ↔ P

namespace SucceedsIff

theorem congr (h : SucceedsIff x P) (hPQ : P ↔ Q) : SucceedsIff x Q := fun n => (h n).trans hPQ

theorem pure (a : α) : SucceedsIff (Pure.pure a) True := fun _ => ⟨fun _ => trivial, fun _ => ⟨_, rfl⟩⟩

theorem complain (span : Option Span) (fault : LowerFault) :
    SucceedsIff (Emit.complain span fault : Emit α) False := by
  intro n
  constructor
  · rintro ⟨r, h⟩
    cases h
  · exact False.elim

theorem fresh : SucceedsIff Emit.fresh True := fun _ => ⟨fun _ => trivial, fun _ => ⟨_, rfl⟩⟩

theorem lift (r : Except Complaint α) : SucceedsIff (liftM r : Emit α) (∃ a, r = .ok a) := by
  intro n
  cases r with
  | error c =>
    constructor
    · rintro ⟨r, h⟩
      cases h
    · rintro ⟨a, h⟩
      cases h
  | ok a => exact ⟨fun _ => ⟨a, rfl⟩, fun _ => ⟨_, rfl⟩⟩

/-- A sequence succeeds exactly if its parts do. -/
theorem bind {f : α → Emit β} (hx : SucceedsIff x P) (hf : ∀ a, SucceedsIff (f a) Q) :
    SucceedsIff (x >>= f) (P ∧ Q) := by
  intro n
  constructor
  · rintro ⟨⟨b, m⟩, h⟩
    obtain ⟨a, k, ha, hb⟩ := bind_eq_ok.1 h
    exact ⟨(hx n).1 ⟨_, ha⟩, (hf a k).1 ⟨_, hb⟩⟩
  · rintro ⟨hP, hQ⟩
    obtain ⟨⟨a, k⟩, ha⟩ := (hx n).2 hP
    obtain ⟨⟨b, m⟩, hb⟩ := (hf a k).2 hQ
    exact ⟨_, bind_eq_ok.2 ⟨a, k, ha, hb⟩⟩

/-- Nothing can go wrong with what is made of a result. -/
theorem map {f : α → β} (hx : SucceedsIff x P) : SucceedsIff (x >>= fun a => Pure.pure (f a)) P :=
  (hx.bind fun a => .pure (f a)).congr (iff_of_eq (and_true P))

/-- A check comes first. -/
theorem check {c : Prop} [Decidable c] {span : Option Span} {fault : LowerFault} {f : β → Emit α}
    (hx : SucceedsIff x P) :
    SucceedsIff (if c then (Emit.complain span fault : Emit β) >>= f else x) (¬c ∧ P) := by
  by_cases hc : c
  · rw [if_pos hc]
    intro n
    constructor
    · rintro ⟨⟨b, m⟩, h⟩
      obtain ⟨a, k, ha, -⟩ := bind_eq_ok.1 h
      cases ha
    · exact fun h => absurd hc h.1
  · rw [if_neg hc]
    exact hx.congr (by simp [hc])

end SucceedsIff

end Emit

open Emit (SucceedsIff)

/-! ## Arguments -/

section Arguments

variable {f : Function}

/-- Keyword arguments are bound if they are distinct, have the names of parameters, and no parameter is
bound before. -/
theorem exists_bindKeywords : ∀ {keywords : List Keyword} {bound : List Nat},
    (∀ k ∈ keywords, k.name ∈ f.paramNames) → (keywords.map Keyword.name).Nodup →
      (∀ k ∈ keywords, ∀ i ∈ bound, f.paramNames[i]? ≠ some k.name) →
        ∃ positions, bindKeywords f keywords bound = .ok positions
  | [], bound, _, _, _ => ⟨[], rfl⟩
  | .mk span name value :: keywords, bound, hnames, hnodup, hbound => by
    rw [List.forall_mem_cons] at hnames hbound
    rw [List.map_cons, List.nodup_cons] at hnodup
    obtain ⟨p, hp, hname⟩ := List.mem_map.1 hnames.1
    have hfind : ∃ position, f.params.findIdx? (·.name == name) = some position := by
      rw [← Option.isSome_iff_exists, List.findIdx?_isSome, List.any_eq_true]
      exact ⟨p, hp, beq_iff_eq.2 hname⟩
    obtain ⟨position, hposition⟩ := hfind
    have hat : f.paramNames[position]? = some name := by
      obtain ⟨hlt, hname, -⟩ := List.findIdx?_eq_some_iff_getElem.1 hposition
      simpa [hlt] using hname
    have hfresh : position ∉ bound := fun hmem => hbound.1 position hmem hat
    have hrest : ∃ positions, bindKeywords f keywords (position :: bound) = .ok positions := by
      refine exists_bindKeywords hnames.2 hnodup.2 fun k hk i hi => ?_
      rcases List.mem_cons.1 hi with rfl | hi
      · rw [hat]
        intro h
        exact hnodup.1 (List.mem_map.2 ⟨k, hk, (Option.some.inj h).symm⟩)
      · exact hbound.2 k hk i hi
    obtain ⟨positions, hrest⟩ := hrest
    refine ⟨position :: positions, ?_⟩
    unfold bindKeywords
    simp [hposition, hfresh, hrest, Except.map]

/-- The arguments of a call are bound exactly if there are no more than parameters and they have the
names of the parameters, each of them once. -/
theorem exists_bindArguments (hnodup : f.paramNames.Nodup) {span : Option Span} {given : Nat}
    {keywords : List Keyword} : (∃ positions, bindArguments span f given keywords = .ok positions) ↔
      given ≤ f.params.length ∧ (f.boundNames given keywords).Perm f.paramNames := by
  constructor
  · rintro ⟨positions, h⟩
    have hbinds := bindArguments_eq_ok h
    exact ⟨hbinds.given_le, hbinds.perm_names⟩
  · rintro ⟨hgiven, hperm⟩
    obtain ⟨htake, hkeywords, hdisjoint⟩ := List.nodup_append.1 (hperm.symm.nodup hnodup)
    have hmem : ∀ k ∈ keywords, k.name ∈ f.paramNames := fun k hk =>
      hperm.mem_iff.1 (List.mem_append_right _ (List.mem_map.2 ⟨k, hk, rfl⟩))
    have hbound : ∀ k ∈ keywords, ∀ i ∈ List.range given, f.paramNames[i]? ≠ some k.name := by
      intro k hk i hi h
      have hi : (f.paramNames.take given)[i]? = some k.name := by
        rw [List.getElem?_take_of_lt (List.mem_range.1 hi), h]
      exact hdisjoint _ (List.mem_of_getElem? hi) _ (List.mem_map.2 ⟨k, hk, rfl⟩) rfl
    obtain ⟨positions, hpositions⟩ := exists_bindKeywords hmem hkeywords hbound
    obtain ⟨hnames, -, -⟩ := bindKeywords_eq_ok hpositions
    have hall : ∀ i, i < f.params.length → i ∈ List.range given ++ positions := by
      intro i hi
      have hlt : i < f.paramNames.length := by simpa using hi
      rcases List.mem_append.1 (hperm.mem_iff.2 (List.getElem_mem hlt)) with hpos | hkey
      · obtain ⟨j, hj, hji⟩ := List.mem_iff_getElem.1 hpos
        rw [List.getElem_take] at hji
        obtain rfl : j = i := (List.getElem_inj hnodup).1 hji
        rw [List.length_take] at hj
        exact List.mem_append_left _ (List.mem_range.2 (by omega))
      · obtain ⟨k, hk, hname⟩ := List.mem_map.1 hkey
        have : some k.name ∈ positions.map (f.paramNames[·]?) := by
          rw [hnames]
          exact List.mem_map.2 ⟨k, hk, rfl⟩
        obtain ⟨j, hj, hjk⟩ := List.mem_map.1 this
        obtain ⟨hlt', hjk⟩ := List.getElem?_eq_some_iff.1 hjk
        obtain rfl : j = i := (List.getElem_inj hnodup).1 (hjk.trans hname)
        exact List.mem_append_right _ hj
    refine ⟨List.range given ++ positions, ?_⟩
    have hfind : f.params.zipIdx.find? (fun p => !(List.range given ++ positions).contains p.2) =
        none := by
      rw [List.find?_eq_none]
      rintro ⟨p, i⟩ hp
      have hi := (List.mem_zipIdx hp).2.1
      have hcontains := List.contains_iff_mem.2 (hall i (by omega))
      show ¬(!(List.range given ++ positions).contains i) = true
      rw [hcontains]
      decide
    unfold bindArguments
    simp only [if_neg (Nat.not_lt.2 hgiven), hpositions, bind, Except.bind, pure, Except.pure, hfind]

/-- The options of a call of the printing function are found exactly if they are the separator and the
terminator, and literal. -/
theorem exists_printOptions : ∀ {keywords : List Keyword} {separator terminator : String},
    (∃ options, printOptions keywords separator terminator = .ok options) ↔
      ∀ k ∈ keywords, (k.name = "sep" ∨ k.name = "end") ∧ k.value.isText = true
  | [], separator, terminator => by simp [printOptions]
  | .mk span name value :: keywords, separator, terminator => by
    rw [List.forall_mem_cons]
    cases value with
    | text place text =>
      have hhead : ((Keyword.mk span name (.text place text)).name = "sep" ∨
          (Keyword.mk span name (.text place text)).name = "end") ∧
            (Keyword.mk span name (.text place text)).value.isText = true ↔
          name = "sep" ∨ name = "end" := by
        simp [Keyword.name, Keyword.value, Expr.isText]
      rw [hhead, printOptions]
      by_cases hsep : name = "sep"
      · simp [hsep, exists_printOptions]
      · by_cases hend : name = "end"
        · simp [hend, exists_printOptions]
        · simp [hsep, hend]
    | _ => simp [printOptions, Keyword.value, Expr.isText]

end Arguments

/-! ## Calls -/

namespace Region

variable {r : Region} {args : List Expr} {keywords : List Keyword}

/-- Calls of a definition. -/
theorem calls_defined {span : Option Span} {id : String} {d : Definition}
    (hd : definition? id r.around = some d) : r.Calls (.name span id) args keywords ↔
      (args.length ≤ d.params.length ∧
        (d.params.take args.length ++ keywords.map Keyword.name).Perm d.params) ∧
      (∀ e ∈ args, r.Values e) ∧ ∀ k ∈ keywords, r.Values k.value := by
  constructor
  · intro h
    cases h with
    | defined hd' hgiven hnames hargs hkeywords =>
      obtain rfl := Option.some.inj (hd.symm.trans hd')
      exact ⟨⟨hgiven, hnames⟩, hargs, hkeywords⟩
    | print hnone => cases hd.symm.trans hnone
  · rintro ⟨⟨hgiven, hnames⟩, hargs, hkeywords⟩
    exact .defined hd hgiven hnames hargs hkeywords

/-- Calls of a name that no function has. -/
theorem calls_undefined {span : Option Span} {id : String} (hd : definition? id r.around = none) :
    r.Calls (.name span id) args keywords ↔ id = printName ∧
      (∀ e ∈ args, e.isText = true ∨ r.Values e) ∧
      ∀ k ∈ keywords, (k.name = "sep" ∨ k.name = "end") ∧ k.value.isText = true := by
  constructor
  · intro h
    cases h with
    | defined hd' => cases hd.symm.trans hd'
    | print _ hargs hkeywords => exact ⟨rfl, hargs, hkeywords⟩
  · rintro ⟨rfl, hargs, hkeywords⟩
    exact .print hd hargs hkeywords

/-- Literal keyword arguments keep the rules. -/
theorem admits_nodesBy_of_isText {keywords : List Keyword}
    (h : ∀ k ∈ keywords, k.value.isText = true) : ∀ n ∈ nodesBy keywords, r.Admits n := by
  induction keywords with
  | nil => simp [nodesBy]
  | cons k keywords ih =>
    rw [List.forall_mem_cons] at h
    have hrest := ih h.2
    obtain ⟨hvalue, -⟩ := h
    cases k with
    | mk span name value =>
      cases value with
      | text =>
        rw [nodesBy, List.forall_mem_cons, List.forall_mem_append]
        exact ⟨trivial, List.forall_mem_singleton.2 trivial, hrest⟩
      | _ => cases hvalue

end Region

/-! ## Regions and their code -/

/-- Code that is emitted for the site is that of statements of the region: names mean the same there,
and parameters of definitions are distinct. -/
structure Site.Serves (site : Site) (r : Region) : Prop where
  inFunction : site.inFunction = r.inFunction
  mem_locals : ∀ id, id ∈ site.locals ↔ id ∈ r.locals
  resolve : ∀ id, match site.scope.resolve? id with
    | none => definition? id r.around = none
    | some index => ∃ f d, site.functions[index]? = some f ∧ definition? id r.around = some d ∧
        d.params = f.paramNames ∧ f.paramNames.Nodup

section Emission

variable {site : Site} {r : Region}

/-- The code of a name. -/
theorem succeeds_nameCode (hsite : site.Serves r) (span : Option Span) (id : String) :
    SucceedsIff (nameCode site span id) (r.Values (.name span id)) := by
  have hvalues : r.Values (.name span id) ↔ id ∈ site.locals ∨ definition? id r.around = none := by
    rw [hsite.mem_locals]
    rfl
  refine SucceedsIff.congr ?_ hvalues.symm
  unfold nameCode
  cases hlocal : site.locals.idxOf? id with
  | some slot =>
    have hmem : id ∈ site.locals := by
      by_contra h
      cases (List.idxOf?_eq_none_iff.2 h).symm.trans hlocal
    exact (SucceedsIff.pure _).congr (by simp [hmem])
  | none =>
    have hmem : id ∉ site.locals := List.idxOf?_eq_none_iff.1 hlocal
    have hresolve := hsite.resolve id
    cases hscope : site.scope.resolve? id with
    | none =>
      rw [hscope] at hresolve
      exact (SucceedsIff.pure _).congr (by simp [hresolve])
    | some index =>
      rw [hscope] at hresolve
      obtain ⟨f, d, -, hd, -⟩ := hresolve
      exact (SucceedsIff.complain _ _).congr (by simp [hd, hmem])

section CallCode

variable {span s : Option Span} {id : String} {args : List Expr} {keywords : List Keyword}

/-- The code of a call of a definition, given that of its arguments. -/
theorem succeeds_callOfDefinition {index : Nat} {f : Function} {d : Definition}
    (htarget : target site span (.name s id) = .ok (.function index f))
    (hd : definition? id r.around = some d) (hparams : d.params = f.paramNames)
    (hnodup : f.paramNames.Nodup)
    (hargs : SucceedsIff (emitArgs site args)
      ((∀ e ∈ args, r.Values e) ∧ ∀ n ∈ nodesOf args, r.Admits n))
    (hstored : SucceedsIff (storeArgs site args)
      ((∀ e ∈ args, r.Values e) ∧ ∀ n ∈ nodesOf args, r.Admits n))
    (hkeywords : SucceedsIff (storeKeywords site keywords)
      ((∀ k ∈ keywords, r.Values k.value) ∧ ∀ n ∈ nodesBy keywords, r.Admits n)) :
    SucceedsIff ((Expr.call span (.name s id) args keywords).emit site)
      (r.Calls (.name s id) args keywords ∧ (∀ n ∈ nodesOf args, r.Admits n) ∧
        ∀ n ∈ nodesBy keywords, r.Admits n) := by
  have hbind : (∃ positions, bindArguments span f args.length keywords = .ok positions) ↔
      args.length ≤ d.params.length ∧
        (d.params.take args.length ++ keywords.map Keyword.name).Perm d.params := by
    rw [exists_bindArguments hnodup, hparams, List.length_map]
    rfl
  rw [Expr.emit, htarget, Emit.lift_ok, Region.calls_defined hd, ← hbind]
  dsimp only
  -- arguments are stored only where keywords may change their order
  by_cases hempty : keywords = []
  · subst hempty
    refine ((SucceedsIff.lift _).bind fun _ => hargs.map).congr ?_
    constructor
    · rintro ⟨hbinds, hvalues, hnodes⟩
      exact ⟨⟨hbinds, hvalues, by simp⟩, hnodes, by simp [nodesBy]⟩
    · rintro ⟨⟨hbinds, hvalues, -⟩, hnodes, -⟩
      exact ⟨hbinds, hvalues, hnodes⟩
  · have hempty : keywords.isEmpty = false := by simpa using hempty
    simp only [hempty, Bool.false_eq_true, if_false]
    refine ((SucceedsIff.lift _).bind fun _ => hstored.bind fun _ => hkeywords.map).congr ?_
    constructor
    · rintro ⟨hbinds, ⟨hvalues, hnodes⟩, hkeywordValues, hkeywordNodes⟩
      exact ⟨⟨hbinds, hvalues, hkeywordValues⟩, hnodes, hkeywordNodes⟩
    · rintro ⟨⟨hbinds, hvalues, hkeywordValues⟩, hnodes, hkeywordNodes⟩
      exact ⟨hbinds, ⟨hvalues, hnodes⟩, hkeywordValues, hkeywordNodes⟩

/-- The code of a call of a name that no definition has, given that of its arguments. -/
theorem succeeds_callOfUndefined (hscope : site.scope.resolve? id = none)
    (hd : definition? id r.around = none)
    (hprinted : SucceedsIff (printedArgs site args)
      ((∀ e ∈ args, e.isText = true ∨ r.Values e) ∧ ∀ n ∈ nodesOf args, r.Admits n)) :
    SucceedsIff ((Expr.call span (.name s id) args keywords).emit site)
      (r.Calls (.name s id) args keywords ∧ (∀ n ∈ nodesOf args, r.Admits n) ∧
        ∀ n ∈ nodesBy keywords, r.Admits n) := by
  rw [Region.calls_undefined hd, Expr.emit]
  by_cases hprint : id = printName
  · subst hprint
    have htarget : target site span (.name s printName) = .ok .print := by simp [target, hscope]
    rw [htarget, Emit.lift_ok]
    dsimp only
    refine ((SucceedsIff.lift _).bind fun _ => hprinted.map).congr ?_
    rw [exists_printOptions]
    constructor
    · rintro ⟨hoptions, hvalues, hnodes⟩
      exact ⟨⟨rfl, hvalues, hoptions⟩, hnodes,
        Region.admits_nodesBy_of_isText fun k hk => (hoptions k hk).2⟩
    · rintro ⟨⟨-, hvalues, hoptions⟩, hnodes, -⟩
      exact ⟨hoptions, hvalues, hnodes⟩
  · have htarget : target site span (.name s id) = .error ⟨span, .unknownFunction id⟩ := by
      simp [target, hscope, hprint]
    rw [htarget, Emit.lift_error]
    exact (SucceedsIff.complain _ _).congr (by simp [hprint])

/-- The code of a call, given that of its arguments. -/
theorem succeeds_call (hsite : site.Serves r) {callee : Expr}
    (hargs : SucceedsIff (emitArgs site args)
      ((∀ e ∈ args, r.Values e) ∧ ∀ n ∈ nodesOf args, r.Admits n))
    (hstored : SucceedsIff (storeArgs site args)
      ((∀ e ∈ args, r.Values e) ∧ ∀ n ∈ nodesOf args, r.Admits n))
    (hkeywords : SucceedsIff (storeKeywords site keywords)
      ((∀ k ∈ keywords, r.Values k.value) ∧ ∀ n ∈ nodesBy keywords, r.Admits n))
    (hprinted : SucceedsIff (printedArgs site args)
      ((∀ e ∈ args, e.isText = true ∨ r.Values e) ∧ ∀ n ∈ nodesOf args, r.Admits n)) :
    SucceedsIff ((Expr.call span callee args keywords).emit site)
      (r.Calls callee args keywords ∧ (∀ n ∈ callee.nodes, r.Admits n) ∧
        (∀ n ∈ nodesOf args, r.Admits n) ∧ ∀ n ∈ nodesBy keywords, r.Admits n) := by
  cases callee with
  | name s id =>
    have hcallee : ∀ n ∈ (Expr.name s id).nodes, r.Admits n := List.forall_mem_singleton.2 trivial
    simp only [and_iff_right hcallee]
    have hresolve := hsite.resolve id
    cases hscope : site.scope.resolve? id with
    | none =>
      rw [hscope] at hresolve
      exact succeeds_callOfUndefined hscope hresolve hprinted
    | some index =>
      rw [hscope] at hresolve
      obtain ⟨f, d, hf, hd, hparams, hnodup⟩ := hresolve
      have htarget : target site span (.name s id) = .ok (.function index f) := by
        simp [target, hscope, hf]
      exact succeeds_callOfDefinition htarget hd hparams hnodup hargs hstored hkeywords
  | _ =>
    intro n
    constructor
    · rintro ⟨_, h⟩
      cases h
    · rintro ⟨h, -⟩
      cases h

end CallCode

mutual

/-- The code of an expression whose value is needed. -/
theorem Expr.succeeds_emit (hsite : site.Serves r) : ∀ e : Expr,
    SucceedsIff (e.emit site) (r.Values e ∧ ∀ n ∈ e.nodes, r.Admits n)
  | .number span value => by
    refine (SucceedsIff.pure _).congr ?_
    rw [Expr.nodes, List.forall_mem_singleton]
    simp [Region.Values, Region.Admits]
  | .text span value => by
    refine (SucceedsIff.complain _ _).congr ?_
    simp [Region.Values]
  | .name span id => by
    refine (succeeds_nameCode hsite span id).congr ?_
    rw [Expr.nodes, List.forall_mem_singleton]
    simp [Region.Admits]
  | .member span receiver id => by
    refine (SucceedsIff.complain _ _).congr ?_
    rw [Expr.nodes, List.forall_mem_cons]
    simp [Region.Admits]
  | .call span callee args keywords => by
    refine (succeeds_call hsite (succeeds_emitArgs hsite args) (succeeds_storeArgs hsite args)
      (succeeds_storeKeywords hsite keywords) (succeeds_printedArgs hsite args)).congr ?_
    rw [Expr.nodes, List.forall_mem_cons, List.forall_mem_append, List.forall_mem_append]
    simp [Region.Values, Region.Admits]
  | .binary span op left right | .compare span op left right => by
    refine ((left.succeeds_emit hsite).bind fun _ => (right.succeeds_emit hsite).map).congr ?_
    rw [Expr.nodes, List.forall_mem_cons, List.forall_mem_append]
    simp only [Region.Values, Region.Admits, true_and]
    tauto
  | .negate span operand => by
    refine (operand.succeeds_emit hsite).map.congr ?_
    rw [Expr.nodes, List.forall_mem_cons]
    simp [Region.Values, Region.Admits]

/-- The code of arguments that are pushed. -/
theorem succeeds_emitArgs (hsite : site.Serves r) : ∀ es : List Expr, SucceedsIff (emitArgs site es)
    ((∀ e ∈ es, r.Values e) ∧ ∀ n ∈ nodesOf es, r.Admits n)
  | [] => (SucceedsIff.pure _).congr (by simp [nodesOf])
  | e :: es => by
    refine ((e.succeeds_emit hsite).bind fun _ => (succeeds_emitArgs hsite es).map).congr ?_
    rw [nodesOf, List.forall_mem_cons, List.forall_mem_append]
    tauto

/-- The code of arguments that are stored. -/
theorem succeeds_storeArgs (hsite : site.Serves r) : ∀ es : List Expr,
    SucceedsIff (storeArgs site es) ((∀ e ∈ es, r.Values e) ∧ ∀ n ∈ nodesOf es, r.Admits n)
  | [] => (SucceedsIff.pure _).congr (by simp [nodesOf])
  | e :: es => by
    refine ((e.succeeds_emit hsite).bind fun _ => SucceedsIff.fresh.bind fun _ =>
      (succeeds_storeArgs hsite es).map).congr ?_
    rw [nodesOf, List.forall_mem_cons, List.forall_mem_append]
    tauto

/-- The code of keyword arguments that are stored. -/
theorem succeeds_storeKeywords (hsite : site.Serves r) : ∀ ks : List Keyword,
    SucceedsIff (storeKeywords site ks)
      ((∀ k ∈ ks, r.Values k.value) ∧ ∀ n ∈ nodesBy ks, r.Admits n)
  | [] => (SucceedsIff.pure _).congr (by simp [nodesBy])
  | .mk span name value :: ks => by
    refine ((value.succeeds_emit hsite).bind fun _ => SucceedsIff.fresh.bind fun _ =>
      (succeeds_storeKeywords hsite ks).map).congr ?_
    rw [nodesBy, List.forall_mem_cons, List.forall_mem_cons, List.forall_mem_append]
    simp only [Region.Admits, Keyword.value]
    tauto

/-- The code of what is printed: a literal text needs no value. -/
theorem succeeds_printedArgs (hsite : site.Serves r) : ∀ es : List Expr,
    SucceedsIff (printedArgs site es)
      ((∀ e ∈ es, e.isText = true ∨ r.Values e) ∧ ∀ n ∈ nodesOf es, r.Admits n)
  | [] => (SucceedsIff.pure _).congr (by simp [nodesOf])
  | e :: es => by
    by_cases htext : ∃ span value, e = .text span value
    · obtain ⟨span, value, rfl⟩ := htext
      refine (succeeds_printedArgs hsite es).map.congr ?_
      rw [nodesOf, Expr.nodes, List.forall_mem_cons, List.forall_mem_append,
        List.forall_mem_singleton]
      simp [Expr.isText, Region.Admits]
    · have hne : ∀ span value, e ≠ .text span value := fun span value h => htext ⟨span, value, h⟩
      have hnot : e.isText = false := Expr.isText_eq_false hne
      rw [printedArgs_cons_value hne]
      refine ((e.succeeds_emit hsite).bind fun _ => SucceedsIff.fresh.bind fun _ =>
        (succeeds_printedArgs hsite es).map).congr ?_
      rw [nodesOf, List.forall_mem_cons, List.forall_mem_append]
      simp only [hnot, Bool.false_eq_true, false_or]
      tauto

end

mutual

/-- The code of a statement. -/
theorem Stmt.succeeds_emit (hsite : site.Serves r) : ∀ s : Stmt,
    SucceedsIff (s.emit site) (∀ n ∈ s.ownNodes, r.Admits n)
  | .define span name params body => by
    refine (SucceedsIff.pure _).congr ?_
    rw [Stmt.ownNodes, List.forall_mem_singleton]
    rfl
  | .give span none => by
    simp only [Stmt.emit]
    refine (SucceedsIff.check (.pure _)).congr ?_
    rw [Stmt.ownNodes, List.forall_mem_singleton]
    simp [Region.Admits, hsite.inFunction]
  | .give span (some value) => by
    simp only [Stmt.emit]
    refine (SucceedsIff.check (value.succeeds_emit hsite).map).congr ?_
    rw [Stmt.ownNodes, List.forall_mem_cons]
    simp [Region.Admits, hsite.inFunction, and_assoc]
  | .assign span target value => by
    have hvalue := value.succeeds_emit hsite
    have hassign : SucceedsIff ((Stmt.assign span target value).emit site)
        (r.Values value ∧ ∀ n ∈ value.nodes, r.Admits n) := by
      simp only [Stmt.emit]
      split
      · exact hvalue.map
      · exact hvalue.map
    refine hassign.congr ?_
    rw [Stmt.ownNodes, List.forall_mem_cons]
    rfl
  | .eval span value => by
    refine (value.succeeds_emit hsite).map.congr ?_
    rw [Stmt.ownNodes, List.forall_mem_cons]
    rfl
  | .branch span test body orelse => by
    simp only [Stmt.emit]
    refine ((test.succeeds_emit hsite).bind fun _ => SucceedsIff.check <|
      (succeeds_emitBlock hsite body).bind fun _ => (succeeds_emitBlock hsite orelse).map).congr ?_
    rw [Stmt.ownNodes, List.forall_mem_cons, List.forall_mem_append, List.forall_mem_append]
    simp only [Region.Admits, List.isEmpty_iff, ne_eq]
    tauto
  | .loop span test body => by
    simp only [Stmt.emit]
    refine ((test.succeeds_emit hsite).bind fun _ => SucceedsIff.check
      (succeeds_emitBlock hsite body).map).congr ?_
    rw [Stmt.ownNodes, List.forall_mem_cons, List.forall_mem_append]
    simp only [Region.Admits, List.isEmpty_iff, ne_eq]
    tauto
  | .pass span => by
    refine (SucceedsIff.pure _).congr ?_
    rw [Stmt.ownNodes, List.forall_mem_singleton]
    rfl

/-- The code of a block. -/
theorem succeeds_emitBlock (hsite : site.Serves r) : ∀ ss : List Stmt,
    SucceedsIff (emitBlock site ss) (∀ n ∈ ownNodesIn ss, r.Admits n)
  | [] => (SucceedsIff.pure _).congr (by simp [ownNodesIn])
  | s :: ss => by
    refine ((s.succeeds_emit hsite).bind fun _ => (succeeds_emitBlock hsite ss).map).congr ?_
    rw [ownNodesIn, List.forall_mem_append]

end

end Emission

/-! ## Programs -/

section Programs

variable {p : Program}

/-- Names mean the same in a function of a program as in the definition that it comes from. -/
theorem Program.resolve_of_numbered (hnodup : ∀ f ∈ p.functions, f.paramNames.Nodup) {scope : Scope}
    {around : List (List Stmt)} (h : Numbered p.defined scope around) (id : String) :
    match scope.resolve? id with
    | none => definition? id around = none
    | some index => ∃ f d, p.functions[index]? = some f ∧ definition? id around = some d ∧
        d.params = f.paramNames ∧ f.paramNames.Nodup := by
  have hid := h.map_resolve? id
  cases hscope : scope.resolve? id with
  | none =>
    rw [hscope, Option.map_none, eq_comm, Option.map_eq_none_iff] at hid
    exact hid
  | some index =>
    rw [hscope, Option.map_some, eq_comm, Option.map_eq_some_iff] at hid
    obtain ⟨d, hd, hindex⟩ := hid
    have hsame := p.forall₂_functions
    obtain ⟨hlt, hat⟩ := List.getElem?_eq_some_iff.1 hindex.symm
    have hlt' : index < p.functions.length := hsame.length_eq ▸ hlt
    have hfd := hsame.get hlt' hlt
    have hparams : p.functions[index].paramNames = d.params := by
      rw [← hat]
      exact hfd.params
    exact ⟨p.functions[index], d, List.getElem?_eq_getElem hlt', hd, hparams.symm,
      hnodup _ (List.getElem_mem hlt')⟩

/-- The site of a function serves the region of the definition. -/
theorem Function.serves (hnodup : ∀ f ∈ p.functions, f.paramNames.Nodup) {f : Function}
    {d : Definition} (h : SameDefinition p.defined f d) :
    Site.Serves ⟨p.functions, f.scope, f.locals, true⟩ d.region where
  inFunction := rfl
  mem_locals id := by
    rw [Function.mem_locals, Definition.region, List.mem_append, ← h.params, ← h.body]
  resolve := Program.resolve_of_numbered hnodup h.numbered

/-- A function has code exactly if its region keeps the rules. -/
theorem Function.exists_emit (hnodup : ∀ f ∈ p.functions, f.paramNames.Nodup) {f : Function}
    {d : Definition} (h : SameDefinition p.defined f d) :
    (∃ r, f.emit p.functions = .ok r) ↔ ∀ n ∈ ownNodesIn d.region.block, d.region.Admits n := by
  have hblock := succeeds_emitBlock (Function.serves hnodup h) f.body f.locals.length
  have hbody : d.region.block = f.body := h.body.symm
  rw [hbody, ← hblock]
  unfold Function.emit Site.body StateT.run
  constructor
  · rintro ⟨r, hr⟩
    obtain ⟨a, ha, -⟩ := bind_eq_ok.1 hr
    exact ⟨a, ha⟩
  · rintro ⟨a, ha⟩
    exact ⟨_, bind_eq_ok.2 ⟨a, ha, rfl⟩⟩

theorem exists_bind {ε α β : Type} {x : Except ε α} {f : α → Except ε β} :
    (∃ b, (x >>= f) = .ok b) ↔ ∃ a, x = .ok a ∧ ∃ b, f a = .ok b := by
  constructor
  · rintro ⟨b, h⟩
    obtain ⟨a, ha, hb⟩ := bind_eq_ok.1 h
    exact ⟨a, ha, b, hb⟩
  · rintro ⟨a, ha, b, hb⟩
    exact ⟨b, bind_eq_ok.2 ⟨a, ha, hb⟩⟩

theorem exists_mapM {ε α β : Type} {f : α → Except ε β} : ∀ {xs : List α},
    (∃ ys, xs.mapM f = .ok ys) ↔ ∀ x ∈ xs, ∃ y, f x = .ok y
  | [] => ⟨nofun, fun _ => ⟨[], rfl⟩⟩
  | x :: xs => by
    rw [List.mapM_cons, List.forall_mem_cons, ← exists_mapM]
    constructor
    · rintro ⟨ys, h⟩
      obtain ⟨y, hy, h⟩ := bind_eq_ok.1 h
      obtain ⟨ys, hys, -⟩ := bind_eq_ok.1 h
      exact ⟨⟨y, hy⟩, ys, hys⟩
    · rintro ⟨⟨y, hy⟩, ys, hys⟩
      exact ⟨y :: ys, bind_eq_ok.2 ⟨y, hy, bind_eq_ok.2 ⟨ys, hys, rfl⟩⟩⟩

/-- A program has code exactly if its functions and its own statements have. -/
theorem Program.exists_code (p : Program) : (∃ code, p.code = .ok code) ↔
    (∀ f ∈ p.functions, ∃ r, f.emit p.functions = .ok r) ∧ ∃ r, p.emit = .ok r := by
  constructor
  · rintro ⟨code, h⟩
    have hcode := Program.code_eq_ok h
    refine ⟨fun f hf => ?_, ?_⟩
    · obtain ⟨i, hi⟩ := List.mem_iff_getElem?.1 hf
      obtain ⟨body, slots, hemit, -⟩ := hcode.function i f hi
      exact ⟨_, hemit⟩
    · obtain ⟨body, slots, hemit, -⟩ := hcode.run
      exact ⟨_, hemit⟩
  · rintro ⟨hfunctions, r, hrun⟩
    unfold Program.code
    refine exists_bind.2 (Exists.imp (fun defined h => ⟨h, exists_bind.2 ⟨r, hrun, _, rfl⟩⟩)
      (exists_mapM.2 fun f hf => ?_))
    obtain ⟨r, hr⟩ := hfunctions f hf
    exact ⟨_, bind_eq_ok.2 ⟨r, hr, rfl⟩⟩

/-- A program has code exactly if the nodes of its regions keep the rules, provided that parameters of
functions are distinct. -/
theorem Program.exists_code_iff (hnodup : ∀ f ∈ p.functions, f.paramNames.Nodup) :
    (∃ code, p.code = .ok code) ↔ ∀ r ∈ p.regions, ∀ n ∈ ownNodesIn r.block, r.Admits n := by
  have hsame := p.forall₂_functions
  have hrun : (∃ r, p.emit = .ok r) ↔
      ∀ n ∈ ownNodesIn p, (Region.mk p [p] [] false).Admits n := by
    have hsite : Site.Serves ⟨p.functions, p.scope, [], false⟩ ⟨p, [p], [], false⟩ :=
      ⟨rfl, fun _ => Iff.rfl, Program.resolve_of_numbered hnodup p.numbered⟩
    exact succeeds_emitBlock hsite p 0
  have hfunctions : (∀ f ∈ p.functions, ∃ r, f.emit p.functions = .ok r) ↔
      ∀ d ∈ p.defined, ∀ n ∈ ownNodesIn d.region.block, d.region.Admits n := by
    constructor
    · intro h d hd
      obtain ⟨i, hi, rfl⟩ := List.mem_iff_getElem.1 hd
      have hi' : i < p.functions.length := hsame.length_eq ▸ hi
      exact (Function.exists_emit hnodup (hsame.get hi' hi)).1 (h _ (List.getElem_mem hi'))
    · intro h f hf
      obtain ⟨i, hi, rfl⟩ := List.mem_iff_getElem.1 hf
      have hi' : i < p.defined.length := hsame.length_eq ▸ hi
      exact (Function.exists_emit hnodup (hsame.get hi hi')).2 (h _ (List.getElem_mem hi'))
  rw [Program.exists_code, hfunctions, hrun, Program.regions, List.forall_mem_cons,
    List.forall_mem_map, and_comm]

/-- The programs that are lowered are the admissible ones. -/
theorem Program.exists_lower (p : Program) : (∃ m, p.lower = .ok m) ↔ p.Admissible := by
  constructor
  · rintro ⟨m, h⟩
    obtain ⟨hlocated, hcheck, code, hcode, -⟩ := Program.lower_eq_ok h
    obtain ⟨hplaced, hdistinct⟩ := p.checkDefinitions_eq_ok.1 hcheck
    have hadmitted := (Program.exists_code_iff (nodup_params_of_check hcheck)).1 ⟨code, hcode⟩
    exact ⟨Program.firstUnlocated?_eq_none.1 hlocated, hplaced, hdistinct, hadmitted⟩
  · rintro ⟨hlocated, hplaced, hdistinct, hadmitted⟩
    have hcheck := p.checkDefinitions_eq_ok.2 ⟨hplaced, hdistinct⟩
    obtain ⟨code, hcode⟩ := (Program.exists_code_iff (nodup_params_of_check hcheck)).2 hadmitted
    refine ⟨assemble p.arities code, ?_⟩
    unfold Program.lower
    rw [Program.firstUnlocated?_eq_none.2 hlocated, hcheck, hcode]
    rfl

/-- A program is not lowered for want of a place exactly if a node stands nowhere, and the first such
node is named. -/
theorem Program.lower_eq_unlocated (p : Program) (kind : NodeKind) :
    p.lower = .error (.unlocated kind) ↔ firstUnlocatedKind? p.nodes = some kind := by
  rw [← p.firstUnlocated?_eq]
  unfold Program.lower
  cases p.firstUnlocated? with
  | some first => simp
  | none =>
    cases checkDefinitionsIn true [] p with
    | error c => simp
    | ok => cases p.code <;> simp

/-- A program becomes an executable exactly if it keeps the rules. If it does not, then the first node
that stands nowhere is named if there is one, and otherwise there is a complaint about a rule. -/
theorem Program.executable_iff_admissible (p : Program) (source : String) :
    ((∃ x, p.executable source = .ok x) ↔ p.Admissible) ∧
    (∀ kind, p.executable source = .error (.unlocated kind) ↔
      firstUnlocatedKind? p.nodes = some kind) ∧
    (¬p.Admissible → (∀ n ∈ p.nodes, n.span.isSome) →
      ∃ c, p.executable source = .error (.compilation source c)) := by
  have hlower := p.exists_lower
  refine ⟨?_, fun kind => ?_, fun hnot hlocated => ?_⟩
  · rw [← hlower]
    constructor
    · rintro ⟨x, hx⟩
      obtain ⟨m, hm, -⟩ := Program.executable_eq_ok hx
      exact ⟨m, hm⟩
    · rintro ⟨m, hm⟩
      exact ⟨⟨source, m.encode⟩, by rw [Program.executable, hm]⟩
  · rw [← p.lower_eq_unlocated]
    unfold Program.executable
    cases h : p.lower with
    | ok m => simp
    | error e => cases e <;> simp [Error.ofLower]
  · cases h : p.lower with
    | ok m => exact absurd (hlower.1 ⟨m, h⟩) hnot
    | error e =>
      cases e with
      | unlocated kind =>
        have hfirst := (p.lower_eq_unlocated kind).1 h
        rw [firstUnlocatedKind?_eq_none.2 hlocated] at hfirst
        cases hfirst
      | complaint c => exact ⟨c, by rw [Program.executable, h]; rfl⟩

end Programs

end Stampline
