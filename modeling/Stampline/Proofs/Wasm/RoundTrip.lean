import Stampline.Proofs.Wasm.Structured

/-!
# Modules are read back

A module of the kind that programs are lowered to is read back from its bytes. The only way to fail
is that there are too many of something for a number of 32 bits, which cannot be where the module has
fewer bytes than that.
-/

namespace Stampline.Wasm

namespace Decoder

variable {α β : Type} {ok : Prop}

theorem unsignedLeb_ne_nil (n : Nat) : unsignedLeb n ≠ [] := by
  unfold unsignedLeb
  split <;> simp

/-! ## Parts of modules -/

theorem reads_valueType (v : ValueType) : Reads ok valueType [v.code] v := by
  intro rest
  refine .inl ?_
  cases v <;> rfl

theorem reads_valueTypes {vs : List ValueType}
    (hsize : ok → (encodeVec (fun v : ValueType => [v.code]) vs).length < 4294967296) :
    Reads ok (vec valueType) (encodeVec (fun v => [v.code]) vs) vs :=
  reads_vec_self hsize (fun _ _ => by simp) fun v _ _ => reads_valueType v

theorem reads_funcType {t : FuncType} (hsize : ok → t.encode.length < 4294967296) :
    Reads ok funcType t.encode t := by
  have hlength : t.encode.length = 1 + (encodeVec (fun v : ValueType => [v.code]) t.params).length +
      (encodeVec (fun v : ValueType => [v.code]) t.results).length := by
    simp [FuncType.encode]
    omega
  exact (reads_exactly 0x60).bind ((reads_valueTypes fun h => by have := hsize h; omega).bind
    (reads_valueTypes fun h => by have := hsize h; omega).map)

theorem reads_import {i : Import} (hspace : NameFits i.space) (hname : NameFits i.name)
    (htype : ok → i.type < 4294967296) : Reads ok imported i.encode i := by
  rw [Import.encode, List.append_assoc]
  exact (reads_name hspace).bind ((reads_name hname).bind
    ((reads_exactly 0x00).bind (reads_u32 htype).map))

theorem reads_limits {l : Limits} (hmax : l.max = none) (hwide : l.wide = false)
    (hmin : ok → l.min < 4294967296) : Reads ok limits l.encode l := by
  obtain ⟨min, max, wide⟩ := l
  subst hmax hwide
  exact (reads_byte 0x00).bind (reads_u32 hmin).map

theorem reads_export {e : Export} (hname : NameFits e.name) (hindex : ok → e.index < 4294967296) :
    Reads ok exported e.encode e := by
  obtain ⟨name, kind, index⟩ := e
  refine (reads_name hname).bind ((reads_byte kind.code).bind ?_)
  cases kind <;> exact (reads_u32 hindex).map

theorem reads_segment {k : UInt32} {bs : List UInt8} (hsize : ok → bs.length < 4294967296) :
    Reads ok segment (Segment.encode ⟨.active 0 [.const32 k], bs⟩)
      ⟨.active 0 [.const32 k], bs⟩ := by
  have hoffset : Passes ok [Instr.const32 k] :=
    passes_plain 0x41 rfl (by decide) (reads_word32 k).map
  have hbytes : Reads ok (do return (⟨.active 0 [.const32 k], ← bytes (← u32)⟩ : Segment))
      (encodeSized bs) ⟨.active 0 [.const32 k], bs⟩ :=
    (reads_u32 hsize).bind (reads_bytes bs).map
  have hzero : Reads ok u32 [0x00] 0 := fun _ => .inl rfl
  exact hzero.bind ((reads_body hoffset).bind hbytes)

theorem reads_code {f : Func UInt32} (hsize : ok → f.encode.length < 4294967296)
    (hlocals : ok → ∀ run ∈ f.locals, run.1 < 4294967296) (hbody : Passes ok f.body) :
    Reads ok (sized code) f.encode (f.locals, f.body) := by
  have hlength : (encodeVec encodeRun f.locals ++ encodeInstrs f.body ++ [0x0b]).length ≤
      f.encode.length := by
    simp [Func.encode, encodeSized]
  refine reads_sized (fun h => by have := hsize h; omega) ?_
  rw [List.append_assoc]
  have hruns : Reads ok (vec localRun) (encodeVec encodeRun f.locals) f.locals :=
    reads_vec_self (fun h => by have := hsize h; simp at hlength; omega)
      (fun _ _ => by simp [encodeRun])
      fun run hrun _ => (reads_u32 fun h => hlocals h run hrun).bind (reads_valueType run.2).map
  exact hruns.bind (reads_body hbody).map

/-! ## Sections -/

/-- The reader takes all of `bytes` and comes to `x`, or fails where `ok` does not hold. -/
def ReadsAll (ok : Prop) (read : Decoder α) (bytes : List UInt8) (x : α) : Prop :=
  read bytes = some (x, []) ∨ ¬ok ∧ read bytes = none

theorem Reads.bindAll {first : Decoder α} {second : α → Decoder β} {a b : List UInt8} {x : α}
    {y : β} (h₁ : Reads ok first a x) (h₂ : ReadsAll ok (second x) b y) :
    ReadsAll ok (first >>= second) (a ++ b) y := by
  show (first (a ++ b) >>= fun r => second r.1 r.2) = _ ∨
    ¬ok ∧ (first (a ++ b) >>= fun r => second r.1 r.2) = none
  rcases h₁ b with h | ⟨hok, h⟩
  · rw [h]
    exact h₂
  · rw [h]
    exact .inr ⟨hok, rfl⟩

theorem passOver_cons {b : UInt8} (hb : b ≠ 0x00) (bound : Nat) (s : List UInt8) :
    passOver bound (b :: s) = some ((), b :: s) := by
  cases bound with
  | zero => rfl
  | succ bound =>
    have hne : ∀ tail, b :: s = 0x00 :: tail → False := fun _ h => hb (List.cons.inj h).1
    simp [passOver, bind, StateT.bind, get, getThe, MonadStateOf.get, StateT.get, pure,
      statePure_apply]

theorem passOver_nil (bound : Nat) : passOver bound [] = some ((), []) := by
  cases bound <;> rfl

theorem sectionOf_cons {number b : UInt8} {contents : Decoder α} {missing : α} (hb : b ≠ 0x00)
    (s : List UInt8) : sectionOf number contents missing (b :: s) =
      if b = number then sized contents s else some (missing, b :: s) := by
  simp only [sectionOf, bind, StateT.bind, get, getThe, MonadStateOf.get, StateT.get, pure,
    Option.bind_some, passOver_cons hb]
  split
  · rfl
  · rfl

theorem sectionOf_nil {number : UInt8} {contents : Decoder α} {missing : α} :
    sectionOf number contents missing [] = some (missing, []) := by
  simp only [sectionOf, bind, StateT.bind, get, getThe, MonadStateOf.get, StateT.get, pure,
    Option.bind_some, passOver_nil]
  rfl

theorem length_le_encodeSection (number : UInt8) (bs : List UInt8) :
    bs.length ≤ (encodeSection number bs).length := by
  simp [encodeSection, encodeSized]
  omega

/-- A section is read back that is there. -/
theorem reads_section {number : UInt8} {contents : Decoder α} {missing x : α} {bs : List UInt8}
    (hnumber : number ≠ 0x00) (hsize : ok → (encodeSection number bs).length < 4294967296)
    (h : Reads ok contents bs x) :
    Reads ok (sectionOf number contents missing) (encodeSection number bs) x := by
  have hlength := length_le_encodeSection number bs
  intro rest
  rw [encodeSection, List.cons_append, sectionOf_cons hnumber, if_pos rfl]
  exact reads_sized (fun hok => by have := hsize hok; omega) h rest

/-- A section that is not there is passed over, if something else is. -/
theorem readsAll_missing {number b : UInt8} {contents : Decoder α} {missing : α}
    {second : α → Decoder β} {bs : List UInt8} {y : β} (hb : b ≠ 0x00) (hne : b ≠ number)
    (h : ReadsAll ok (second missing) (b :: bs) y) :
    ReadsAll ok (sectionOf number contents missing >>= second) (b :: bs) y := by
  have : (sectionOf number contents missing >>= second) (b :: bs) = second missing (b :: bs) := by
    show (sectionOf number contents missing (b :: bs) >>= fun r => second r.1 r.2) = _
    rw [sectionOf_cons hb, if_neg hne]
    rfl
  rwa [ReadsAll, this]

theorem readsAll_missing_nil {number : UInt8} {contents : Decoder α} {missing : α}
    {second : α → Decoder β} {y : β} (h : ReadsAll ok (second missing) [] y) :
    ReadsAll ok (sectionOf number contents missing >>= second) [] y := by
  have : (sectionOf number contents missing >>= second) [] = second missing [] := by
    show (sectionOf number contents missing [] >>= fun r => second r.1 r.2) = _
    rw [sectionOf_nil]
    rfl
  rwa [ReadsAll, this]

theorem reads_joinFuncs : ∀ fs : List (Func UInt32),
    Reads ok (joinFuncs (fs.map (·.type)) (fs.map fun f => (f.locals, f.body))) [] fs
  | [] => .pure []
  | _ :: fs => (reads_joinFuncs fs).map

end Decoder

/-! ## Modules -/

open Decoder

/-- A module of the kind that programs are lowered to, in which everything has its place if `ok`
holds. -/
structure Module.Plain (ok : Prop) (m : Module) : Prop where
  tables : m.tables = []
  globals : m.globals = []
  start : m.start = none
  elems : m.elems = []
  dataCount : m.dataCount = none
  size : ok → m.encode.length < 4294967296
  imports : ∀ i ∈ m.imports, NameFits i.space ∧ NameFits i.name ∧ i.type < m.types.length
  bodies : ∀ f ∈ m.funcs, Passes ok f.body ∧ f.type < m.types.length ∧
    (ok → ∀ run ∈ f.locals, run.1 < 4294967296)
  memories : m.memories ≠ [] ∧ ∀ l ∈ m.memories, l.max = none ∧ l.wide = false ∧
    (ok → l.min < 4294967296)
  exports : ∀ e ∈ m.exports, NameFits e.name ∧ (ok → e.index < 4294967296)
  data : ∀ s ∈ m.data, ∃ k, s.mode = .active 0 [.const32 k]

namespace Module.Plain

variable {ok : Prop} {m : Module}

/-- The bytes of such a module, section by section. -/
theorem encode_eq (h : m.Plain ok) : m.encode = preamble ++
    (encodeSection 1 (encodeVec FuncType.encode m.types) ++
    (encodeSection 2 (encodeVec Import.encode m.imports) ++
    (encodeSection 3 (encodeVec (fun f => unsignedLeb f.type) m.funcs) ++
    (encodeSection 5 (encodeVec Limits.encode m.memories) ++
    (encodeSection 7 (encodeVec Export.encode m.exports) ++
    (encodeSection 10 (encodeVec Func.encode m.funcs) ++
      encodeUnlessEmpty 11 Segment.encode m.data)))))) := by
  have hmemories : m.memories.isEmpty = false := by simpa using h.memories.1
  simp only [Module.encode, h.tables, h.globals, h.start, h.elems, h.dataCount, encodeUnlessEmpty,
    List.isEmpty_nil, if_true, hmemories, Bool.false_eq_true, if_false, List.append_nil,
    List.append_assoc]

theorem types_lt (h : m.Plain ok) (hok : ok) : m.types.length < 4294967296 := by
  have hsize := h.size hok
  rw [h.encode_eq] at hsize
  simp only [List.length_append] at hsize
  have := length_le_encodeSection 1 (encodeVec FuncType.encode m.types)
  have : m.types.length ≤ (encodeVec FuncType.encode m.types).length :=
    length_le_encodeVec _ fun t _ => by simp [FuncType.encode]
  omega

/-- What is read behind all sections but the last. -/
theorem readsAll_end (h : m.Plain ok)
    (hsize : ok → (encodeUnlessEmpty 11 Segment.encode m.data).length < 4294967296) :
    ReadsAll ok (do
      let data ← sectionOf 11 (vec segment) []
      passOver (← get).length
      let funcs ← joinFuncs (m.funcs.map (·.type)) (m.funcs.map fun f => (f.locals, f.body))
      return ({ m with data := data, funcs := funcs } : Module))
      (encodeUnlessEmpty 11 Segment.encode m.data) m := by
  have hrest : ∀ data, data = m.data → ReadsAll ok (do
      passOver (← get).length
      let funcs ← joinFuncs (m.funcs.map (·.type)) (m.funcs.map fun f => (f.locals, f.body))
      return ({ m with data := data, funcs := funcs } : Module)) [] m := by
    rintro _ rfl
    have hjoin : Reads ok (joinFuncs (m.funcs.map (·.type))
        (m.funcs.map fun f => (f.locals, f.body))) [] m.funcs := reads_joinFuncs m.funcs
    have hfuncs := hjoin.map (f := fun funcs => ({ m with funcs := funcs } : Module)) []
    simpa [ReadsAll, bind, StateT.bind, get, getThe, MonadStateOf.get, StateT.get, pure,
      statePure_apply, passOver_nil] using hfuncs
  unfold encodeUnlessEmpty at hsize ⊢
  cases hdata : m.data with
  | nil => exact readsAll_missing_nil (hrest [] hdata.symm)
  | cons s ss =>
    rw [hdata] at hsize
    simp only [List.isEmpty_cons, Bool.false_eq_true, if_false] at hsize ⊢
    rw [← List.append_nil (encodeSection 11 _)]
    have hlength := length_le_encodeSection 11 (encodeVec Segment.encode (s :: ss))
    refine (reads_section (by decide) hsize (reads_vec_self (fun hok => ?_) (fun t _ => ?_)
      fun t ht hfits => ?_)).bindAll (hrest _ hdata.symm)
    · have := hsize hok
      omega
    · unfold Segment.encode
      split <;> simp
    · obtain ⟨k, hk⟩ := h.data t (hdata ▸ ht)
      obtain ⟨mode, bs⟩ := t
      obtain rfl : mode = .active 0 [.const32 k] := hk
      refine reads_segment fun hok => ?_
      have := hfits hok
      simp [Segment.encode, encodeSized] at this
      omega

end Module.Plain

/-- A section with a sequence that is there. -/
theorem reads_vecSection {α β : Type} {ok : Prop} {number : UInt8} {item : Decoder β}
    {encode : α → List UInt8} {g : α → β} {xs : List α} {missing : List β}
    (hnumber : number ≠ 0x00)
    (hsize : ok → (encodeSection number (encodeVec encode xs)).length < 4294967296)
    (hnil : ∀ x ∈ xs, encode x ≠ [])
    (h : ∀ x ∈ xs, (ok → (encode x).length < 4294967296) → Reads ok item (encode x) (g x)) :
    Reads ok (sectionOf number (vec item) missing) (encodeSection number (encodeVec encode xs))
      (xs.map g) := by
  have hlength := length_le_encodeSection number (encodeVec encode xs)
  exact reads_section hnumber hsize
    (reads_vec (fun hok => by have := hsize hok; omega) hnil h)

/-- A module is read back, unless something in it is too large for its place. -/
theorem decode_encode {ok : Prop} {m : Module} (h : m.Plain ok) :
    decode m.encode = some m ∨ ¬ok ∧ decode m.encode = none := by
  have htypes := h.types_lt
  have hread : ReadsAll ok wholeModule m.encode m := by
    have hsize := h.size
    rw [h.encode_eq] at hsize ⊢
    simp only [List.length_append] at hsize
    have h₁ : Reads ok (sectionOf 1 (vec funcType) [])
        (encodeSection 1 (encodeVec FuncType.encode m.types)) (m.types.map id) :=
      reads_vecSection (by decide) (fun hok => by have := hsize hok; omega)
        (fun t _ => by simp [FuncType.encode]) fun t _ => reads_funcType
    have h₂ : Reads ok (sectionOf 2 (vec imported) [])
        (encodeSection 2 (encodeVec Import.encode m.imports)) (m.imports.map id) :=
      reads_vecSection (by decide) (fun hok => by have := hsize hok; omega)
        (fun i _ => by simp [Import.encode]) fun i hi _ => by
          obtain ⟨hspace, hname, htype⟩ := h.imports i hi
          exact reads_import hspace hname fun hok => Nat.lt_trans htype (htypes hok)
    have h₃ : Reads ok (sectionOf 3 (vec u32) [])
        (encodeSection 3 (encodeVec (fun f => unsignedLeb f.type) m.funcs)) (m.funcs.map (·.type)) :=
      reads_vecSection (by decide) (fun hok => by have := hsize hok; omega)
        (fun f _ => unsignedLeb_ne_nil _) fun f hf _ =>
          reads_u32 fun hok => Nat.lt_trans (h.bodies f hf).2.1 (htypes hok)
    have h₅ : Reads ok (sectionOf 5 (vec limits) [])
        (encodeSection 5 (encodeVec Limits.encode m.memories)) (m.memories.map id) :=
      reads_vecSection (by decide) (fun hok => by have := hsize hok; omega)
        (fun l hl => by simp [Limits.encode, (h.memories.2 l hl).1]) fun l hl _ => by
          obtain ⟨hmax, hwide, hmin⟩ := h.memories.2 l hl
          exact reads_limits hmax hwide hmin
    have h₇ : Reads ok (sectionOf 7 (vec exported) [])
        (encodeSection 7 (encodeVec Export.encode m.exports)) (m.exports.map id) :=
      reads_vecSection (by decide) (fun hok => by have := hsize hok; omega)
        (fun e _ => by simp [Export.encode]) fun e he _ =>
          reads_export (h.exports e he).1 (h.exports e he).2
    have h₁₀ : Reads ok (sectionOf 10 (vec (sized code)) [])
        (encodeSection 10 (encodeVec Func.encode m.funcs))
        (m.funcs.map fun f => (f.locals, f.body)) :=
      reads_vecSection (by decide) (fun hok => by have := hsize hok; omega)
        (fun f _ => by simp [Func.encode, encodeSized, unsignedLeb_ne_nil]) fun f hf hfits =>
          reads_code hfits (h.bodies f hf).2.2 (h.bodies f hf).1
    rw [List.map_id] at h₁ h₂ h₅ h₇
    refine (reads_bytes preamble).bindAll ?_
    rw [if_neg (by simp)]
    refine h₁.bindAll (h₂.bindAll (h₃.bindAll (readsAll_missing (by decide) (by decide)
      (h₅.bindAll (readsAll_missing (by decide) (by decide) (h₇.bindAll ?_))))))
    refine readsAll_missing (by decide) (by decide) (readsAll_missing (by decide) (by decide)
      (readsAll_missing (by decide) (by decide) (h₁₀.bindAll ?_)))
    have hend := h.readsAll_end fun hok => by have := hsize hok; omega
    rwa [h.tables, h.globals, h.start, h.elems, h.dataCount] at hend
  rcases hread with h | ⟨hok, h⟩
  · exact .inl (by rw [decode, h])
  · exact .inr ⟨hok, by rw [decode, h]⟩

/-! ## What is read

Whatever bytes a module is read from, the number of bytes in one of its segments is one of 32 bits.
-/

namespace Decoder

variable {α β : Type}

/-- Whatever the reader comes to satisfies `P`. -/
def Gives (read : Decoder α) (P : α → Prop) : Prop := ∀ s x rest, read s = some (x, rest) → P x

namespace Gives

variable {P : α → Prop} {Q : β → Prop}

theorem any (read : Decoder α) : Gives read fun _ => True := fun _ _ _ _ => trivial

theorem pure {x : α} (h : P x) : Gives (Pure.pure x) P := fun s y rest hread => by
  obtain ⟨rfl, -⟩ := Prod.mk.inj (Option.some.inj hread)
  exact h

theorem bind {first : Decoder α} {second : α → Decoder β} (h₁ : Gives first P)
    (h₂ : ∀ x, P x → Gives (second x) Q) : Gives (first >>= second) Q := fun s y rest hread => by
  obtain ⟨⟨x, s'⟩, hfirst, hsecond⟩ := Option.bind_eq_some_iff.1 hread
  exact h₂ x (h₁ s x s' hfirst) s' y rest hsecond

theorem next {first : Decoder α} {second : α → Decoder β} (h : ∀ x, Gives (second x) Q) :
    Gives (first >>= second) Q := (any first).bind fun x _ => h x

theorem fail : Gives fail P := fun _ _ _ hread => by simp [Decoder.fail] at hread

end Gives

theorem lt_of_readUnsigned {bits n : Nat} {s rest : List UInt8}
    (h : readUnsigned bits s = some (n, rest)) : n < Nat.pow 2 bits := by
  induction s generalizing bits n with
  | nil => simp [readUnsigned] at h
  | cons b s ih =>
    unfold readUnsigned at h
    split at h
    · split at h
      · obtain ⟨rfl, -⟩ := Prod.mk.inj (Option.some.inj h)
        assumption
      · simp at h
    split at h
    · simp at h
    rename_i hbits
    split at h
    · simp at h
    rename_i high rest' hhigh
    obtain ⟨rfl, rfl⟩ := Prod.mk.inj (Option.some.inj h)
    have hlt := ih hhigh
    have hb := b.toNat_lt
    have hpow : Nat.pow 2 bits = Nat.pow 2 (bits - 7) * 128 := by
      rw [show bits = bits - 7 + 7 by omega]
      exact Nat.pow_add 2 (bits - 7) 7
    omega

theorem gives_u32 : Gives u32 (· < 4294967296) := fun _ _ _ h => lt_of_readUnsigned h

theorem gives_bytes (n : Nat) : Gives (bytes n) (·.length ≤ n) := fun s x rest h => by
  unfold bytes at h
  split at h
  · simp at h
  · obtain ⟨rfl, -⟩ := Prod.mk.inj (Option.some.inj h)
    rw [List.length_take]
    exact Nat.min_le_left ..

theorem gives_segment : Gives segment (·.bytes.length < 4294967296) := by
  have hrest : ∀ mode, Gives (do return (⟨mode, ← bytes (← u32)⟩ : Segment))
      (·.bytes.length < 4294967296) := fun mode =>
    gives_u32.bind fun n hn => (gives_bytes n).bind fun bs hbs =>
      .pure (Nat.lt_of_le_of_lt hbs hn)
  refine .next fun kind => ?_
  split
  · exact .next fun _ => hrest _
  · exact hrest _
  · exact .next fun _ => .next fun _ => hrest _
  · exact .next fun _ => hrest _

theorem gives_repeated {item : Decoder α} {P : α → Prop} (h : Gives item P) :
    ∀ (n : Nat) {before : List α}, (∀ x ∈ before, P x) →
      Gives (repeated item n before) (∀ x ∈ ·, P x)
  | 0, _, hbefore => .pure fun x hx => hbefore x (List.mem_reverse.1 hx)
  | n + 1, _, hbefore => h.bind fun _ hx =>
    gives_repeated h n (List.forall_mem_cons.2 ⟨hx, hbefore⟩)

theorem gives_vec {item : Decoder α} {P : α → Prop} (h : Gives item P) :
    Gives (vec item) (∀ x ∈ ·, P x) :=
  gives_u32.bind fun n _ => gives_repeated h n nofun

theorem gives_sized {contents : Decoder α} {P : α → Prop} (h : Gives contents P) :
    Gives (sized contents) P :=
  gives_u32.bind fun n _ => (gives_bytes n).bind fun inner _ => by
    split
    · rename_i x hx
      exact .pure (h _ _ _ hx)
    · exact .fail

theorem gives_sectionOf {number : UInt8} {contents : Decoder α} {missing : α} {P : α → Prop}
    (h : Gives contents P) (hmissing : P missing) : Gives (sectionOf number contents missing) P :=
  .next fun _ => .next fun _ => .next fun s => by
    split
    · exact .pure hmissing
    · split
      · exact .next fun _ => gives_sized h
      · exact .pure hmissing

theorem gives_wholeModule :
    Gives wholeModule fun m => ∀ s ∈ m.data, s.bytes.length < 4294967296 := by
  refine .next fun start => ?_
  split
  · exact Gives.fail (P := fun _ => False) |>.bind nofun
  · refine .next fun types => .next fun imports => .next fun funcTypes => .next fun tables =>
      .next fun memories => .next fun globals => .next fun exports => .next fun start =>
      .next fun elems => .next fun dataCount => .next fun codes => ?_
    have hdata : Gives (sectionOf 11 (vec segment) [])
        fun data => ∀ s ∈ data, s.bytes.length < 4294967296 :=
      gives_sectionOf (gives_vec gives_segment) nofun
    exact hdata.bind fun data hdata => .next fun _ => .next fun _ => .next fun _ => .pure hdata

end Decoder

theorem length_data_of_decode {bytes : List UInt8} {m : Module} (h : decode bytes = some m) :
    ∀ s ∈ m.data, s.bytes.length < 4294967296 := by
  unfold decode at h
  split at h
  · rename_i hread
    obtain rfl := Option.some.inj h
    exact gives_wholeModule _ _ _ hread
  · simp at h

end Stampline.Wasm
