import Stampline.Proofs.Wasm.Bytes

/-!
# Structured code

The forms of code that programs are lowered to. Branches occur in loops alone, and there in two
places: one leaves the block around the loop if the test does not hold, and the other goes back to the
beginning. Code of these forms is read back from its bytes.
-/

namespace Stampline.Wasm

variable {ι κ : Type}

theorem mapInstrs_append (f : ι → κ) : ∀ is js : List (Instr ι),
    mapInstrs f (is ++ js) = mapInstrs f is ++ mapInstrs f js
  | [], js => rfl
  | i :: is, js => by rw [List.cons_append, mapInstrs, mapInstrs, mapInstrs_append f is js]; rfl

/-- A round of a loop: the code of its test, the branch that leaves the loop, the code of its body and
the branch back. -/
theorem mapInstrs_round (f : ι → κ) (test body : List (Instr ι)) :
    mapInstrs f (test ++ [.numeric (.isZero .w64), .brIf 1] ++ body ++ [.br 0]) =
      mapInstrs f test ++ .numeric (.isZero .w64) :: .brIf 1 :: (mapInstrs f body ++ [.br 0]) := by
  simp [mapInstrs_append, mapInstrs, Instr.map]

theorem constantsOf_append : ∀ is js : List (Instr ι),
    constantsOf (is ++ js) = constantsOf is ++ constantsOf js
  | [], js => rfl
  | i :: is, js => by
    rw [List.cons_append, constantsOf, constantsOf, constantsOf_append is js, List.append_assoc]

/-- Instructions without a body that neither branch nor refer to anything beyond `slots` locals and
`funcs` functions. -/
def Instr.Simple (slots funcs : Nat) : Instr ι → Prop
  | .const32 _ | .const64 _ | .drop | .ret => True
  | .localGet slot | .localSet slot => slot < slots
  | .call func => func < funcs
  | .numeric op => op ∈ Numeric.listed
  | _ => False

/-- Code in which all branches are those of loops. -/
inductive Structured (slots funcs : Nat) : List (Instr ι) → Prop where
  | nil : Structured slots funcs []
  | simple {i is} (hi : i.Simple slots funcs) (his : Structured slots funcs is) :
      Structured slots funcs (i :: is)
  | when {body is} (hbody : Structured slots funcs body) (his : Structured slots funcs is) :
      Structured slots funcs (.when .none body :: is)
  | choose {body orelse is} (hbody : Structured slots funcs body)
      (horelse : Structured slots funcs orelse) (his : Structured slots funcs is) :
      Structured slots funcs (.choose .none body orelse :: is)
  | loop {test body is} (htest : Structured slots funcs test)
      (hbody : Structured slots funcs body) (his : Structured slots funcs is) :
      Structured slots funcs (.block .none [.loop .none
        (test ++ [.numeric (.isZero .w64), .brIf 1] ++ body ++ [.br 0])] :: is)

namespace Structured

variable {slots funcs slots' : Nat} {is js : List (Instr ι)}

theorem append (his : Structured slots funcs is) (hjs : Structured slots funcs js) :
    Structured slots funcs (is ++ js) := by
  induction his with
  | nil => exact hjs
  | simple hi _ ih => exact .simple hi ih
  | when hbody _ _ ih => exact .when hbody ih
  | choose hbody horelse _ _ _ ih => exact .choose hbody horelse ih
  | loop htest hbody _ _ _ ih => exact .loop htest hbody ih

theorem of_le (his : Structured slots funcs is) (hle : slots ≤ slots') :
    Structured slots' funcs is := by
  induction his with
  | nil => exact .nil
  | @simple i _ hi _ ih =>
    refine .simple ?_ ih
    cases i with
    | localGet | localSet => exact Nat.lt_of_lt_of_le hi hle
    | _ => exact hi
  | when _ _ ihbody ih => exact .when ihbody ih
  | choose _ _ _ ihbody ihorelse ih => exact .choose ihbody ihorelse ih
  | loop _ _ _ ihtest ihbody ih => exact .loop ihtest ihbody ih

theorem map (f : ι → κ) (his : Structured slots funcs is) :
    Structured slots funcs (mapInstrs f is) := by
  induction his with
  | nil => exact .nil
  | @simple i is hi _ ih =>
    refine .simple ?_ ih
    cases i <;> exact hi
  | when _ _ ihbody ih => exact .when ihbody ih
  | choose _ _ _ ihbody ihorelse ih => exact .choose ihbody ihorelse ih
  | loop _ _ _ ihtest ihbody ih =>
    simp only [mapInstrs, Instr.map, mapInstrs_append]
    exact .loop ihtest ihbody ih

end Structured

/-! ## Reading instructions back -/

theorem encodeInstrs_append : ∀ is js : List (Instr UInt32),
    encodeInstrs (is ++ js) = encodeInstrs is ++ encodeInstrs js
  | [], js => rfl
  | i :: is, js => by
    rw [List.cons_append, encodeInstrs, encodeInstrs, encodeInstrs_append is js, List.append_assoc]

namespace Decoder

/-- An opcode that neither ends a body nor begins one. -/
def IsPlain (opcode : UInt8) : Prop :=
  opcode ≠ 0x0b ∧ opcode ≠ 0x05 ∧ opcode ≠ 0x02 ∧ opcode ≠ 0x03 ∧ opcode ≠ 0x04

instance (opcode : UInt8) : Decidable (IsPlain opcode) := inferInstanceAs (Decidable (_ ∧ _))

theorem instrs_plain {opcode : UInt8} (h : IsPlain opcode) (bound : Nat)
    (before : List (Instr UInt32)) (s : List UInt8) :
    instrs (bound + 1) before (opcode :: s) =
      (plain opcode s).bind fun r => instrs bound (r.1 :: before) r.2 := by
  obtain ⟨h₁, h₂, h₃, h₄, h₅⟩ := h
  simp only [instrs, byte, bind, StateT.bind, Option.bind_some]

/-- Instructions that are read back, wherever they stand. Reading them takes no more of the bound than
they have bytes. -/
def Passes (ok : Prop) (is : List (Instr UInt32)) : Prop :=
  ∀ bound before tail, (encodeInstrs is).length ≤ bound →
    ∃ left, bound - (encodeInstrs is).length ≤ left ∧
      (instrs bound before (encodeInstrs is ++ tail) = instrs left (is.reverse ++ before) tail ∨
        ¬ok ∧ instrs bound before (encodeInstrs is ++ tail) = none)

variable {ok : Prop} {is js : List (Instr UInt32)}

theorem passes_nil : Passes ok [] := fun bound _ _ _ => ⟨bound, by simp, .inl rfl⟩

theorem passes_append (his : Passes ok is) (hjs : Passes ok js) : Passes ok (is ++ js) := by
  intro bound before tail hbound
  rw [encodeInstrs_append, List.length_append] at hbound ⊢
  rw [List.append_assoc]
  obtain ⟨left, hleft, h⟩ := his bound before (encodeInstrs js ++ tail) (by omega)
  rcases h with h | ⟨hok, h⟩
  · obtain ⟨left', hleft', h'⟩ := hjs left (is.reverse ++ before) tail (by omega)
    refine ⟨left', by omega, ?_⟩
    rw [h, List.reverse_append, List.append_assoc]
    exact h'
  · exact ⟨bound, by omega, .inr ⟨hok, h⟩⟩

theorem passes_plain {i : Instr UInt32} (opcode : UInt8) {immediates : List UInt8}
    (hencode : i.encode = opcode :: immediates) (hplain : IsPlain opcode)
    (h : Reads ok (plain opcode) immediates i) : Passes ok [i] := by
  intro bound before tail hbound
  have hbytes : encodeInstrs [i] = opcode :: immediates := by
    rw [encodeInstrs, encodeInstrs, List.append_nil, hencode]
  rw [hbytes, List.length_cons] at hbound ⊢
  obtain ⟨b, rfl⟩ : ∃ b, bound = b + 1 := ⟨bound - 1, by omega⟩
  refine ⟨b, by omega, ?_⟩
  rw [List.cons_append, instrs_plain hplain]
  rcases h tail with h | ⟨hok, h⟩
  · exact .inl (by rw [h]; rfl)
  · exact .inr ⟨hok, by rw [h]; rfl⟩

/-- What is read of a body and of the byte that ends it. -/
theorem instrs_body (h : Passes ok is) (bound : Nat) (hbound : (encodeInstrs is).length < bound)
    {closing : UInt8} {ending : Closing}
    (hclosing : closing = 0x0b ∧ ending = .done ∨ closing = 0x05 ∧ ending = .orelse)
    (tail : List UInt8) :
    instrs bound [] (encodeInstrs is ++ closing :: tail) = some ((is, ending), tail) ∨
      ¬ok ∧ instrs bound [] (encodeInstrs is ++ closing :: tail) = none := by
  obtain ⟨left, hleft, h⟩ := h bound [] (closing :: tail) (by omega)
  obtain ⟨l, rfl⟩ : ∃ l, left = l + 1 := ⟨left - 1, by omega⟩
  refine h.imp (fun h => ?_) id
  rw [h, List.append_nil]
  have hread : instrs (l + 1) is.reverse (closing :: tail) =
      some ((is.reverse.reverse, ending), tail) := by
    rcases hclosing with ⟨rfl, rfl⟩ | ⟨rfl, rfl⟩ <;> rfl
  rw [hread, List.reverse_reverse]

/-- An instruction with one body, given how it is read once its body was. -/
theorem passes_enclosing {i : Instr UInt32} (opcode : UInt8)
    (hencode : i.encode = opcode :: 0x40 :: (encodeInstrs is ++ [0x0b])) (h : Passes ok is)
    (hsome : ∀ bound before s s', instrs bound [] s = some ((is, .done), s') →
      instrs (bound + 1) before (opcode :: 0x40 :: s) = instrs bound (i :: before) s')
    (hnone : ∀ bound before s, instrs bound [] s = none →
      instrs (bound + 1) before (opcode :: 0x40 :: s) = none) : Passes ok [i] := by
  intro bound before tail hbound
  have hbytes : encodeInstrs [i] = opcode :: 0x40 :: (encodeInstrs is ++ [0x0b]) := by
    rw [encodeInstrs, encodeInstrs, List.append_nil, hencode]
  rw [hbytes] at hbound ⊢
  simp only [List.length_cons, List.length_append, List.length_nil] at hbound ⊢
  obtain ⟨b, rfl⟩ : ∃ b, bound = b + 1 := ⟨bound - 1, by omega⟩
  refine ⟨b, by omega, ?_⟩
  simp only [List.cons_append, List.append_assoc, List.nil_append]
  rcases instrs_body h b (by omega) (.inl ⟨rfl, rfl⟩) tail with h | ⟨hok, h⟩
  · exact .inl (by rw [hsome _ _ _ _ h]; rfl)
  · exact .inr ⟨hok, hnone _ _ _ h⟩

theorem passes_block (h : Passes ok is) : Passes ok [.block .none is] :=
  passes_enclosing 0x02 (by simp [Instr.encode, BlockType.encode]) h
    (fun _ _ _ _ h => by simp [instrs, byte, bind, StateT.bind, blockType, h])
    (fun _ _ _ h => by simp [instrs, byte, bind, StateT.bind, blockType, h])

theorem passes_loop (h : Passes ok is) : Passes ok [.loop .none is] :=
  passes_enclosing 0x03 (by simp [Instr.encode, BlockType.encode]) h
    (fun _ _ _ _ h => by simp [instrs, byte, bind, StateT.bind, blockType, h])
    (fun _ _ _ h => by simp [instrs, byte, bind, StateT.bind, blockType, h])

theorem passes_when (h : Passes ok is) : Passes ok [.when .none is] :=
  passes_enclosing 0x04 (by simp [Instr.encode, BlockType.encode]) h
    (fun _ _ _ _ h => by simp [instrs, byte, bind, StateT.bind, blockType, h])
    (fun _ _ _ h => by simp [instrs, byte, bind, StateT.bind, blockType, h])

theorem passes_choose (his : Passes ok is) (hjs : Passes ok js) :
    Passes ok [.choose .none is js] := by
  intro bound before tail hbound
  have hbytes : encodeInstrs [.choose .none is js] =
      0x04 :: 0x40 :: (encodeInstrs is ++ 0x05 :: (encodeInstrs js ++ [0x0b])) := by
    simp [encodeInstrs, Instr.encode, BlockType.encode]
  rw [hbytes] at hbound ⊢
  simp only [List.length_cons, List.length_append, List.length_nil] at hbound ⊢
  obtain ⟨b, rfl⟩ : ∃ b, bound = b + 1 := ⟨bound - 1, by omega⟩
  refine ⟨b, by omega, ?_⟩
  simp only [List.cons_append, List.append_assoc, List.nil_append]
  rcases instrs_body his b (by omega) (.inr ⟨rfl, rfl⟩)
    (encodeInstrs js ++ 0x0b :: tail) with h | ⟨hok, h⟩
  · rcases instrs_body hjs b (by omega) (.inl ⟨rfl, rfl⟩) tail with h' | ⟨hok, h'⟩
    · exact .inl (by simp [instrs, byte, bind, StateT.bind, blockType, h, h'])
    · exact .inr ⟨hok, by simp [instrs, byte, bind, StateT.bind, blockType, h, h']⟩
  · exact .inr ⟨hok, by simp [instrs, byte, bind, StateT.bind, blockType, h]⟩

theorem plain_of_listed {opcode : UInt8} (hlow : 0x45 ≤ opcode.toNat)
    (hhigh : opcode.toNat < 0xd0) : plain opcode = listedInstr opcode.toNat := by
  unfold plain
  split
  all_goals first
    | exact absurd hlow (by decide)
    | exact absurd hhigh (by decide)
    | rw [if_neg (show ¬opcode.toNat < Access.firstLoad by
        have : Access.firstLoad = 0x28 := rfl
        omega)]

theorem encode_of_listed {op : Numeric} (hop : op ∈ Numeric.listed) :
    (Instr.numeric op).encode =
      [UInt8.ofNat (Numeric.firstCode + Numeric.listed.idxOf op)] := by
  cases op with
  | saturate target source signed =>
    have : Numeric.saturate target source signed ∉ Numeric.listed := by
      cases target <;> cases source <;> cases signed <;> decide
    exact absurd hop this
  | _ => rfl

theorem passes_numeric {op : Numeric} (hop : op ∈ Numeric.listed) : Passes ok [.numeric op] := by
  have hlt : Numeric.listed.idxOf op < 128 := List.idxOf_lt_length_of_mem hop
  have hfirst : Numeric.firstCode = 0x45 := rfl
  have hstore : Access.firstStore = 0x36 := rfl
  have htoNat : (UInt8.ofNat (Numeric.firstCode + Numeric.listed.idxOf op)).toNat =
      Numeric.firstCode + Numeric.listed.idxOf op := toNat_ofNat_of_lt (by omega)
  refine passes_plain _ (encode_of_listed hop) ?_ ?_
  · refine ⟨?_, ?_, ?_, ?_, ?_⟩ <;>
      (intro h
       have := congrArg UInt8.toNat h
       rw [htoNat] at this
       simp at this
       omega)
  · rw [plain_of_listed (by omega) (by omega), htoNat, listedInstr, if_neg (by omega),
      if_neg (by omega), Nat.add_sub_cancel_left,
      List.getElem?_eq_getElem (List.idxOf_lt_length_of_mem hop), List.getElem_idxOf]
    exact .pure _

theorem passes_simple {i : Instr UInt32} {slots funcs : Nat} (hi : i.Simple slots funcs)
    (hslots : ok → slots ≤ 4294967296) (hfuncs : ok → funcs ≤ 4294967296) : Passes ok [i] := by
  cases i with
  | const32 value =>
    exact passes_plain 0x41 rfl (by decide) (reads_word32 value).map
  | const64 value =>
    exact passes_plain 0x42 rfl (by decide) (reads_word64 value).map
  | drop => exact passes_plain 0x1a rfl (by decide) (.pure _)
  | ret => exact passes_plain 0x0f rfl (by decide) (.pure _)
  | localGet slot =>
    exact passes_plain 0x20 rfl (by decide)
      (reads_u32 fun h => Nat.lt_of_lt_of_le hi (hslots h)).map
  | localSet slot =>
    exact passes_plain 0x21 rfl (by decide)
      (reads_u32 fun h => Nat.lt_of_lt_of_le hi (hslots h)).map
  | call func =>
    exact passes_plain 0x10 rfl (by decide)
      (reads_u32 fun h => Nat.lt_of_lt_of_le hi (hfuncs h)).map
  | numeric op => exact passes_numeric hi
  | _ => exact hi.elim

theorem passes_br {depth : Nat} (hdepth : depth < 4294967296) : Passes ok [.br depth] :=
  passes_plain 0x0c rfl (by decide) (reads_u32 fun _ => hdepth).map

theorem passes_brIf {depth : Nat} (hdepth : depth < 4294967296) : Passes ok [.brIf depth] :=
  passes_plain 0x0d rfl (by decide) (reads_u32 fun _ => hdepth).map

/-- Structured code is read back. -/
theorem passes_structured {slots funcs : Nat} (his : Structured slots funcs is)
    (hslots : ok → slots ≤ 4294967296) (hfuncs : ok → funcs ≤ 4294967296) : Passes ok is := by
  induction his with
  | nil => exact passes_nil
  | @simple i is hi _ ih => exact passes_append (passes_simple hi hslots hfuncs) ih
  | when _ _ ihbody ih => exact passes_append (passes_when ihbody) ih
  | choose _ _ _ ihbody ihorelse ih => exact passes_append (passes_choose ihbody ihorelse) ih
  | loop _ _ _ ihtest ihbody ih =>
    have htest : Passes ok [.numeric (.isZero .w64), .brIf 1] :=
      passes_append (passes_numeric (by decide)) (passes_brIf (by decide))
    have hturn := passes_append (passes_append (passes_append ihtest htest) ihbody)
      (passes_br (show 0 < 4294967296 by decide))
    exact passes_append (passes_block (passes_loop hturn)) ih

theorem reads_body (his : Passes ok is) : Reads ok body (encodeInstrs is ++ [0x0b]) is := by
  intro rest
  have hlt : (encodeInstrs is).length < (encodeInstrs is ++ 0x0b :: rest).length := by simp
  simp only [List.append_assoc, List.cons_append, List.nil_append]
  simp only [body, bind, StateT.bind, get, getThe, MonadStateOf.get, StateT.get, pure,
    Option.bind_some]
  rcases instrs_body his _ hlt (.inl ⟨rfl, rfl⟩) rest with h | ⟨hok, h⟩
  · exact .inl (by rw [h]; rfl)
  · exact .inr ⟨hok, by rw [h]; rfl⟩

end Decoder

end Stampline.Wasm
