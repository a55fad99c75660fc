import Stampline.Proofs.Lowering.Operands

/-!
# The texts that a tree uses

A tree uses a text wherever it reads a global, binds one, or prints a literal text, a separator or a
terminator. Its code has a call for each use, in the order of the uses, and the constants that belong
to the call say where that text lies and how long it is.
-/

namespace Stampline

open Wasm (Instr)

/-- A text that is given to a function of the host. -/
structure TextUse where
  /-- The function. -/
  func : HostFunction
  /-- The text. -/
  text : String
deriving DecidableEq, Repr

/-! ## Uses in trees -/

/-- The texts that are printed. An empty text is not printed at all. -/
def printUses (texts : List String) : List TextUse :=
  (texts.filter fun text => !text.isEmpty).map (⟨.printText, ·⟩)

/-- The text of the last keyword argument of a name, if there is one. -/
def keywordText (name default : String) : List Keyword → String
  | [] => default
  | .mk _ n (.text _ value) :: ks => keywordText name (if n = name then value else default) ks
  | _ :: ks => keywordText name default ks

/-- The text that an argument of the printing function is, if it is a literal one. -/
def Expr.literalText : Expr → List String
  | .text _ value => [value]
  | _ => []

/-- The texts of a call of the printing function: the literal ones among its arguments with the
separator in between, and the terminator behind them. -/
def printedTexts (args : List Expr) (keywords : List Keyword) : List String :=
  ((args.map Expr.literalText).intersperse [keywordText "sep" " " keywords]).flatten ++
    [keywordText "end" "\n" keywords]

mutual

/-- The texts that an expression uses in the blocks `around`, where `names` are not global. A call of
the printing function comes to its arguments before it prints anything. -/
def Expr.textUses (names : List String) (around : List (List Stmt)) : Expr → List TextUse
  | .name _ id => if names.contains id then [] else [⟨.readGlobal, id⟩]
  | .call _ (.name _ id) args keywords =>
    textUsesOf names around args ++
      if (definition? id around).isSome then textUsesBy names around keywords
      else printUses (printedTexts args keywords)
  | .binary _ _ left right | .compare _ _ left right =>
    left.textUses names around ++ right.textUses names around
  | .negate _ operand => operand.textUses names around
  | _ => []

/-- The texts that expressions use. -/
def textUsesOf (names : List String) (around : List (List Stmt)) : List Expr → List TextUse
  | [] => []
  | e :: es => e.textUses names around ++ textUsesOf names around es

/-- The texts that keyword arguments use. -/
def textUsesBy (names : List String) (around : List (List Stmt)) : List Keyword → List TextUse
  | [] => []
  | .mk _ _ value :: ks => value.textUses names around ++ textUsesBy names around ks

end

mutual

/-- The texts that a statement uses, definitions inside it aside. -/
def Stmt.textUses (names : List String) (around : List (List Stmt)) : Stmt → List TextUse
  | .give _ (some e) | .eval _ e => e.textUses names around
  | .assign _ target e =>
    e.textUses names around ++ if names.contains target then [] else [⟨.writeGlobal, target⟩]
  | .branch _ test body orelse =>
    test.textUses names around ++ textUsesIn names around body ++ textUsesIn names around orelse
  | .loop _ test body => test.textUses names around ++ textUsesIn names around body
  | _ => []

/-- The texts that a block uses. -/
def textUsesIn (names : List String) (around : List (List Stmt)) : List Stmt → List TextUse
  | [] => []
  | s :: ss => s.textUses names around ++ textUsesIn names around ss

end

theorem textUsesBy_eq (names : List String) (around : List (List Stmt)) (keywords : List Keyword) :
    textUsesBy names around keywords = textUsesOf names around (keywords.map Keyword.value) := by
  induction keywords with
  | nil => rfl
  | cons k ks ih =>
    obtain ⟨span, name, value⟩ := k
    rw [textUsesBy, List.map_cons, textUsesOf, ih]
    rfl

theorem printUses_append (texts texts' : List String) :
    printUses (texts ++ texts') = printUses texts ++ printUses texts' := by
  simp [printUses]

/-- The options of a call are those that the last keyword arguments give. -/
theorem keywordText_of_printOptions : ∀ {keywords : List Keyword}
    {separator terminator sep last : String},
    printOptions keywords separator terminator = .ok (sep, last) →
      sep = keywordText "sep" separator keywords ∧ last = keywordText "end" terminator keywords
  | [], _, _, _, _, h => by
    obtain ⟨rfl, rfl⟩ := Prod.mk.inj (Except.ok.inj h)
    exact ⟨rfl, rfl⟩
  | .mk _ name (.text _ value) :: ks, separator, terminator, sep, last, h => by
    unfold printOptions at h
    unfold keywordText
    split at h
    next hname =>
      subst hname
      simpa using keywordText_of_printOptions h
    split at h
    next hname hend =>
      subst hend
      simpa using keywordText_of_printOptions h
    · cases h
  | .mk _ _ (.number ..) :: _, _, _, _, _, h | .mk _ _ (.name ..) :: _, _, _, _, _, h
  | .mk _ _ (.member ..) :: _, _, _, _, _, h | .mk _ _ (.call ..) :: _, _, _, _, _, h
  | .mk _ _ (.binary ..) :: _, _, _, _, _, h | .mk _ _ (.negate ..) :: _, _, _, _, _, h
  | .mk _ _ (.compare ..) :: _, _, _, _, _, h => by cases h

/-! ## Code that makes the uses -/

/-- The call for a use of a text. -/
def TextUse.call (use : TextUse) : TextCall TextPart :=
  ⟨use.func, [.size use.text, .offset use.text]⟩

/-- The calls of code that take a text are those for some uses, and it takes all the constants that it
pushes and no other ones. -/
def MakesUses (code : List Code) (uses : List TextUse) : Prop :=
  ∀ pending, textCallsOf pending code = (uses.map TextUse.call, pending)

namespace MakesUses

variable {code code' : List Code} {uses uses' : List TextUse}

theorem nil : MakesUses [] [] := fun _ => rfl

theorem append (h : MakesUses code uses) (h' : MakesUses code' uses') :
    MakesUses (code ++ code') (uses ++ uses') := by
  intro pending
  rw [textCallsOf_append, h pending, h' pending, List.map_append]

/-- Code that uses no texts behind some other code. -/
theorem before (h : MakesUses code uses) (h' : MakesUses code' []) :
    MakesUses (code ++ code') uses := by
  have happend := h.append h'
  rwa [List.append_nil] at happend

/-- An instruction without a constant of 32 bits. -/
theorem skip {i : Code} (hi : ∀ pending, i.textCalls pending = ([], pending)) : MakesUses [i] [] := by
  intro pending
  rw [textCallsOf, hi]
  rfl

theorem skips (is : List Code) (h : ∀ i ∈ is, ∀ pending, i.textCalls pending = ([], pending)) :
    MakesUses is [] := by
  induction is with
  | nil => exact nil
  | cons i is ih =>
    rw [List.forall_mem_cons] at h
    exact append (skip h.1) (ih h.2)

/-- A call takes the constants that were pushed before the code in front of it. -/
theorem take {f : HostFunction} (hf : f.takesText = true) (text : String) (h : MakesUses code uses) :
    MakesUses (pushText text ++ code ++ [.call f.index]) (uses ++ [⟨f, text⟩]) := by
  have hfunction : textFunction? f.index = some f := by
    cases f with
    | printInt => cases hf
    | _ => rfl
  intro pending
  rw [textCallsOf_append, textCallsOf_append]
  have hpush : textCallsOf pending (pushText text) = ([], .size text :: .offset text :: pending) := rfl
  rw [hpush, h]
  simp [textCallsOf, Wasm.Instr.textCalls, hfunction, TextUse.call]

theorem call {func : Nat} (hfunc : textFunction? func = none) : MakesUses [.call func] [] :=
  skip fun pending => by simp only [Wasm.Instr.textCalls, hfunc]

theorem when (h : MakesUses code uses) : MakesUses [.when .none code] uses := by
  intro pending
  simp [textCallsOf, Wasm.Instr.textCalls, h []]

theorem choose (h : MakesUses code uses) (h' : MakesUses code' uses') :
    MakesUses [.choose .none code code'] (uses ++ uses') := by
  intro pending
  simp [textCallsOf, Wasm.Instr.textCalls, h [], h' []]

theorem loop (h : MakesUses code uses) : MakesUses [.block .none [.loop .none code]] uses := by
  intro pending
  simp [textCallsOf, Wasm.Instr.textCalls, h []]

end MakesUses

/-! ## Printing -/

/-- The text that is printed at a place, if it is a literal one. -/
def Printed.literalText : Printed → List String
  | text value => [value]
  | slot _ => []

theorem makes_printText (text : String) : MakesUses (printText text) (printUses [text]) := by
  unfold printText
  by_cases hempty : text.isEmpty = true
  · rw [if_pos hempty]
    have huses : printUses [text] = [] := by simp [printUses, hempty]
    rw [huses]
    exact .nil
  · rw [if_neg hempty]
    have huses : printUses [text] = [⟨.printText, text⟩] := by simp [printUses, hempty]
    rw [huses]
    exact .take (f := .printText) rfl text .nil

theorem Printed.makes_code (place : Printed) :
    MakesUses place.code (printUses place.literalText) := by
  cases place with
  | text value => exact makes_printText value
  | slot index => exact .append (.skip fun _ => rfl) (.call rfl)

theorem makes_intersperse (separator : String) : ∀ places : List Printed,
    MakesUses ((places.map Printed.code).intersperse (printText separator)).flatten
      (printUses ((places.map Printed.literalText).intersperse [separator]).flatten)
  | [] => .nil
  | [place] => by simpa using place.makes_code
  | place :: next :: places => by
    have hrest := makes_intersperse separator (next :: places)
    simp only [List.map_cons, List.intersperse_cons_cons, List.flatten_cons, printUses_append] at hrest ⊢
    exact .append place.makes_code (.append (makes_printText separator) hrest)

theorem makes_printCode (separator terminator : String) (places : List Printed) :
    MakesUses (printCode separator terminator places)
      (printUses (((places.map Printed.literalText).intersperse [separator]).flatten ++
        [terminator])) := by
  rw [printUses_append]
  exact .append (makes_intersperse separator places) (makes_printText terminator)

section Emitted

variable {site : Site}

/-- The literal texts at the places to print at are those among the arguments. -/
theorem PrintedCode.literalTexts {es : List Expr} {n m : Nat} {code : List Code}
    {places : List Printed} (h : PrintedCode site es n code places m) :
    places.map Printed.literalText = es.map Expr.literalText := by
  induction es generalizing n code places with
  | nil =>
    cases h
    rfl
  | cons e es ih =>
    cases h with
    | text htail => exact congrArg ([_] :: ·) (ih htail)
    | value htext _ htail =>
      have hnone : e.literalText = [] := by
        cases e with
        | text span value => exact absurd rfl (htext span value)
        | _ => rfl
      rw [List.map_cons, List.map_cons, hnone, ih htail]
      rfl

/-! ## Emitted code -/

/-- At a site the given names are not global, and the functions that names refer to are those of the
blocks `around`. -/
structure Site.Sees (site : Site) (names : List String) (around : List (List Stmt)) : Prop where
  locals : ∀ id, id ∈ site.locals ↔ id ∈ names
  scope : ∀ id, (site.scope.resolve? id).isSome = (definition? id around).isSome

variable {names : List String} {around : List (List Stmt)}

namespace Site.Sees

theorem contains_of_some (h : site.Sees names around) {id : String} {slot : Nat}
    (hid : site.locals.idxOf? id = some slot) : names.contains id = true := by
  have hmem : id ∈ site.locals := by
    by_contra hnot
    rw [List.idxOf?_eq_none_iff.2 hnot] at hid
    cases hid
  exact List.contains_iff_mem.2 ((h.locals id).1 hmem)

theorem contains_of_none (h : site.Sees names around) {id : String}
    (hid : site.locals.idxOf? id = none) : ¬names.contains id = true := by
  rw [List.contains_iff_mem, ← h.locals]
  exact List.idxOf?_eq_none_iff.1 hid

theorem defined_of_some (h : site.Sees names around) {id : String} {index : Nat}
    (hfun : site.scope.resolve? id = some index) : (definition? id around).isSome = true := by
  rw [← h.scope, hfun]
  rfl

theorem defined_of_none (h : site.Sees names around) {id : String}
    (hfun : site.scope.resolve? id = none) : ¬(definition? id around).isSome = true := by
  rw [← h.scope, hfun]
  exact Bool.false_ne_true

end Site.Sees

theorem textFunction?_function (index : Nat) : textFunction? (HostFunction.count + index) = none := by
  unfold textFunction?
  rw [List.find?_eq_none]
  intro f _
  have hlt := f.index_lt_count
  have hne : f.index ≠ HostFunction.count + index := by omega
  simp [hne]

theorem makes_function (index : Nat) : MakesUses [.call (HostFunction.count + index)] [] :=
  .call (textFunction?_function index)

theorem BinaryOp.makes_code (op : BinaryOp) : MakesUses [op.code] [] := by
  cases op <;> exact .skip fun _ => rfl

theorem Comparison.makes_code (op : Comparison) : MakesUses [op.code] [] := by
  cases op <;> exact .skip fun _ => rfl

theorem makes_pushBound (params : Nat) (positions temps : List Nat) :
    MakesUses (pushBound params positions temps) [] := by
  refine .skips _ fun i hi => ?_
  obtain ⟨p, -, rfl⟩ := List.mem_map.1 hi
  exact fun _ => rfl

mutual

/-- The code of an expression makes the uses of the expression. -/
theorem ExprCode.makesUses (hsees : site.Sees names around) {e : Expr} {n m : Nat}
    {code : List Code} : ExprCode site e n code m → MakesUses code (e.textUses names around)
  | .number => .skip fun _ => rfl
  | .local hid => by
    rw [Expr.textUses, if_pos (hsees.contains_of_some hid)]
    exact .skip fun _ => rfl
  | .global hid _ => by
    rw [Expr.textUses, if_neg (hsees.contains_of_none hid)]
    exact .take (f := .readGlobal) rfl _ .nil
  | .call hfun _ _ hargs => by
    rw [Expr.textUses, if_pos (hsees.defined_of_some hfun), textUsesBy, List.append_nil]
    exact (hargs.makesUses hsees).before (makes_function _)
  | .callBound hfun _ _ _ hargs hvalues => by
    rw [Expr.textUses, if_pos (hsees.defined_of_some hfun), textUsesBy_eq]
    have hstored := (hargs.makesUses hsees).append (hvalues.makesUses hsees)
    exact (hstored.before (makes_pushBound _ _ _)).before (makes_function _)
  | .print hfun hoptions hargs => by
    obtain ⟨rfl, rfl⟩ := keywordText_of_printOptions hoptions
    rw [Expr.textUses, if_neg (hsees.defined_of_none hfun), printedTexts, ← hargs.literalTexts]
    exact .before (.append (hargs.makesUses hsees) (makes_printCode _ _ _)) (.skip fun _ => rfl)
  | .binary hleft hright => by
    have hoperands := (hleft.makesUses hsees).append (hright.makesUses hsees)
    rw [Expr.textUses]
    exact hoperands.before (BinaryOp.makes_code _)
  | .negate hoperand => by
    have hpushed := (MakesUses.skip (i := .const64 0) fun _ => rfl).append (hoperand.makesUses hsees)
    rw [Expr.textUses]
    exact hpushed.before (BinaryOp.makes_code .sub)
  | .compare hleft hright => by
    have hoperands := (hleft.makesUses hsees).append (hright.makesUses hsees)
    rw [Expr.textUses]
    exact hoperands.before ((Comparison.makes_code _).before (.skip fun _ => rfl))

theorem ArgsCode.makesUses (hsees : site.Sees names around) {es : List Expr} {n m : Nat}
    {code : List Code} : ArgsCode site es n code m → MakesUses code (textUsesOf names around es)
  | .nil => .nil
  | .cons hhead htail => (hhead.makesUses hsees).append (htail.makesUses hsees)

theorem StoredCode.makesUses (hsees : site.Sees names around) {es : List Expr} {n m : Nat}
    {code : List Code} {temps : List Nat} :
    StoredCode site es n code temps m → MakesUses code (textUsesOf names around es)
  | .nil => .nil
  | .cons hhead htail => (hhead.makesUses hsees).append
    (.append (.skip (i := .localSet _) fun _ => rfl) (htail.makesUses hsees))

theorem PrintedCode.makesUses (hsees : site.Sees names around) {es : List Expr} {n m : Nat}
    {code : List Code} {places : List Printed} :
    PrintedCode site es n code places m → MakesUses code (textUsesOf names around es)
  | .nil => .nil
  | .text htail => htail.makesUses hsees
  | .value _ hhead htail => (hhead.makesUses hsees).append
    (.append (.skip (i := .localSet _) fun _ => rfl) (htail.makesUses hsees))

end

mutual

/-- The code of a statement makes the uses of the statement. -/
theorem StmtCode.makesUses (hsees : site.Sees names around) {s : Stmt} {n m : Nat}
    {code : List Code} : StmtCode site s n code m → MakesUses code (s.textUses names around)
  | .define | .pass => .nil
  | .giveZero _ => .append (.skip (i := .const64 0) fun _ => rfl) (.skip fun _ => rfl)
  | .give _ hvalue => by
    rw [Stmt.textUses]
    exact (hvalue.makesUses hsees).before (.skip fun _ => rfl)
  | .assignLocal htarget hvalue => by
    rw [Stmt.textUses, if_pos (hsees.contains_of_some htarget), List.append_nil]
    exact (hvalue.makesUses hsees).before (.skip fun _ => rfl)
  | .assignGlobal htarget hvalue => by
    rw [Stmt.textUses, if_neg (hsees.contains_of_none htarget)]
    exact .take (f := .writeGlobal) rfl _ (hvalue.makesUses hsees)
  | .eval hvalue => by
    rw [Stmt.textUses]
    exact (hvalue.makesUses hsees).before (.skip fun _ => rfl)
  | .when htest _ hbody => by
    have hfork := (Comparison.makes_code .notEqual).append (hbody.makesUses hsees).when
    have hzero : MakesUses [.const64 0] [] := .skip fun _ => rfl
    rw [Stmt.textUses, textUsesIn, List.append_nil]
    exact (htest.makesUses hsees).append (hzero.append hfork)
  | .choose htest _ hbody _ horelse => by
    have hfork := (Comparison.makes_code .notEqual).append
      ((hbody.makesUses hsees).choose (horelse.makesUses hsees))
    have hzero : MakesUses [.const64 0] [] := .skip fun _ => rfl
    rw [Stmt.textUses, List.append_assoc]
    exact (htest.makesUses hsees).append (hzero.append hfork)
  | .loop htest _ hbody => by
    have hleave : MakesUses [.numeric (.isZero .w64), .brIf 1] [] :=
      .append (.skip (i := .numeric (.isZero .w64)) fun _ => rfl) (.skip fun _ => rfl)
    have hturn := ((htest.makesUses hsees).before hleave).append (hbody.makesUses hsees)
    rw [Stmt.textUses]
    exact (hturn.before (.skip fun _ => rfl)).loop

theorem BlockCode.makesUses (hsees : site.Sees names around) {ss : List Stmt} {n m : Nat}
    {code : List Code} : BlockCode site ss n code m → MakesUses code (textUsesIn names around ss)
  | .nil => .nil
  | .cons hhead htail => (hhead.makesUses hsees).append (htail.makesUses hsees)

end

end Emitted

end Stampline
