import Stampline.Wasm.Decode

/-!
# Reading back what was written

`Reads ok read bytes x` says that a reader takes exactly `bytes` off the front and comes to `x`. It
may fail instead, but only if `ok` does not hold, which stands for everything in a module being small
enough for its place; it never comes to anything else. Such statements compose as readers do.
-/

namespace Stampline.Wasm

/-! ## Integers -/

theorem toNat_ofNat_of_lt {n : Nat} (h : n < 256) : (UInt8.ofNat n).toNat = n := by
  simp [UInt8.toNat_ofNat', Nat.mod_eq_of_lt h]

/-- A number is read back if it fits, and is not read otherwise. -/
theorem readUnsigned_unsignedLeb (n bits : Nat) (rest : List UInt8) :
    readUnsigned bits (unsignedLeb n ++ rest) =
      if n < Nat.pow 2 bits then some (n, rest) else none := by
  induction n using Nat.strongRecOn generalizing bits with
  | ind n ih =>
    unfold unsignedLeb
    split
    · rename_i hn
      simp only [List.cons_append, List.nil_append, readUnsigned, toNat_ofNat_of_lt
        (show n < 256 by omega), hn, if_true]
    · rename_i hn
      have hbyte : n % 128 + 128 < 256 := by omega
      have hlarge : ¬n % 128 + 128 < 128 := by omega
      simp only [List.cons_append, readUnsigned, toNat_ofNat_of_lt hbyte, hlarge, if_false]
      by_cases hbits : bits ≤ 7
      · have : Nat.pow 2 bits ≤ Nat.pow 2 7 := Nat.pow_le_pow_right (by decide) hbits
        have : Nat.pow 2 7 = 128 := rfl
        rw [if_pos hbits, if_neg (by omega)]
      · obtain ⟨k, rfl⟩ : ∃ k, bits = k + 7 := ⟨bits - 7, by omega⟩
        have hpow : Nat.pow 2 (k + 7) = 128 * Nat.pow 2 k := by
          rw [Nat.mul_comm]
          exact Nat.pow_add 2 k 7
        rw [if_neg hbits, Nat.add_sub_cancel, ih (n / 128) (by omega), hpow]
        by_cases hlt : n / 128 < Nat.pow 2 k
        · rw [if_pos hlt, if_pos (by omega)]
          simp only [Option.some.injEq, Prod.mk.injEq, and_true]
          omega
        · rw [if_neg hlt, if_neg (by omega)]

/-- An integer that fits is read back. -/
theorem readSigned_signedLeb (n : Int) (bits : Nat) (rest : List UInt8)
    (hlow : -(Nat.pow 2 (bits - 1) : Int) ≤ n) (hhigh : n < (Nat.pow 2 (bits - 1) : Int)) :
    readSigned bits (signedLeb n ++ rest) = some (n, rest) := by
  induction n using signedLeb.induct generalizing bits with
  | case1 n hn =>
    rw [signedLeb, if_pos hn]
    have hlt : (n % 128).toNat < 256 := by omega
    have hsmall : (n % 128).toNat < 128 := by omega
    simp only [List.cons_append, List.nil_append, readSigned, toNat_ofNat_of_lt hlt, hsmall,
      if_true]
    have hvalue : (if (n % 128).toNat < 64 then ((n % 128).toNat : Int)
        else ((n % 128).toNat : Int) - 128) = n := by
      split <;> omega
    rw [hvalue, if_pos ⟨hlow, hhigh⟩]
  | case2 n hn ih =>
    rw [signedLeb, if_neg hn]
    have hbits : ¬bits ≤ 7 := by
      intro hle
      have : Nat.pow 2 (bits - 1) ≤ Nat.pow 2 6 := Nat.pow_le_pow_right (by decide) (by omega)
      have : Nat.pow 2 6 = 64 := rfl
      omega
    have hbyte : (n % 128).toNat + 128 < 256 := by omega
    have hlarge : ¬(n % 128).toNat + 128 < 128 := by omega
    obtain ⟨k, rfl⟩ : ∃ k, bits = k + 8 := ⟨bits - 8, by omega⟩
    have hpow : Nat.pow 2 (k + 7) = 128 * Nat.pow 2 k := by
      rw [Nat.mul_comm]
      exact Nat.pow_add 2 k 7
    simp only [show k + 8 - 1 = k + 7 by omega, hpow] at hlow hhigh
    have hrest := ih (k + 1) (by rw [Nat.add_sub_cancel]; omega) (by rw [Nat.add_sub_cancel]; omega)
    simp only [List.cons_append, readSigned, toNat_ofNat_of_lt hbyte, hlarge, if_false, hbits,
      show k + 8 - 7 = k + 1 by omega, hrest, Option.some.injEq, Prod.mk.injEq, and_true]
    omega

/-! ## Texts -/

theorem toList_loop (bs : ByteArray) (i : Nat) (before : List UInt8) :
    ByteArray.toList.loop bs i before = before.reverse ++ bs.data.toList.drop i := by
  induction i, before using ByteArray.toList.loop.induct bs with
  | case1 i before hi ih =>
    have hlt : i < bs.data.toList.length := by simpa using hi
    have hget : bs.get! i = bs.data.toList[i] := getElem!_pos bs.data i hi
    rw [ByteArray.toList.loop, if_pos hi, ih, List.drop_eq_getElem_cons hlt, hget]
    simp
  | case2 i before hi =>
    rw [ByteArray.toList.loop, if_neg hi, List.drop_eq_nil_of_le (by simpa using hi),
      List.append_nil]

theorem textBytes_eq (s : String) : textBytes s = s.toByteArray.data.toList := by
  rw [textBytes, String.toUTF8_eq_toByteArray, ByteArray.toList, toList_loop]
  rfl

theorem length_textBytes (s : String) : (textBytes s).length = s.utf8ByteSize := by
  rw [textBytes_eq]
  rfl

/-- A text is read back from its bytes. -/
theorem fromUTF8?_textBytes (s : String) :
    String.fromUTF8? ⟨(textBytes s).toArray⟩ = some s := by
  rw [textBytes_eq]
  exact dif_pos s.isValidUTF8

/-! ## Readers -/

namespace Decoder

variable {α β : Type} {ok : Prop}

/-- The reader takes `bytes` off the front and comes to `x`, or fails where `ok` does not hold. -/
def Reads (ok : Prop) (read : Decoder α) (bytes : List UInt8) (x : α) : Prop :=
  ∀ rest, read (bytes ++ rest) = some (x, rest) ∨ ¬ok ∧ read (bytes ++ rest) = none

namespace Reads

theorem pure (x : α) : Reads ok (Pure.pure x) [] x := fun _ => .inl rfl

theorem bind {first : Decoder α} {second : α → Decoder β} {a b : List UInt8} {x : α} {y : β}
    (h₁ : Reads ok first a x) (h₂ : Reads ok (second x) b y) :
    Reads ok (first >>= second) (a ++ b) y := by
  intro rest
  rw [List.append_assoc]
  show (first (a ++ (b ++ rest)) >>= fun r => second r.1 r.2) = _ ∨
    ¬ok ∧ (first (a ++ (b ++ rest)) >>= fun r => second r.1 r.2) = none
  rcases h₁ (b ++ rest) with h | ⟨hok, h⟩
  · rw [h]
    exact h₂ rest
  · rw [h]
    exact .inr ⟨hok, rfl⟩

/-- What is made of what was read. -/
theorem map {first : Decoder α} {f : α → β} {a : List UInt8} {x : α} (h : Reads ok first a x) :
    Reads ok (do return f (← first)) a (f x) := by
  have : Reads ok (first >>= fun x => Pure.pure (f x)) (a ++ []) (f x) := h.bind (.pure (f x))
  rwa [List.append_nil] at this

/-- What is made of what was read, with nothing behind it. -/
theorem bind_pure {first : Decoder α} {second : α → Decoder β} {a : List UInt8} {x : α} {y : β}
    (h₁ : Reads ok first a x) (h₂ : Reads ok (second x) [] y) :
    Reads ok (first >>= second) a y := by
  have := h₁.bind h₂
  rwa [List.append_nil] at this

end Reads

/-- A result that is given without reading. -/
theorem statePure_apply (x : α) (s : List UInt8) :
    (StateT.pure x : Decoder α) s = some (x, s) := rfl

theorem reads_byte (b : UInt8) : Reads ok byte [b] b := fun _ => .inl rfl

theorem reads_exactly (b : UInt8) : Reads ok (exactly b) [b] () := by
  refine (reads_byte b).bind_pure ?_
  rw [if_neg (not_not_intro rfl)]
  exact .pure ()

theorem reads_u32 {n : Nat} (h : ok → n < 4294967296) : Reads ok u32 (unsignedLeb n) n := by
  intro rest
  rw [u32, readUnsigned_unsignedLeb]
  by_cases hn : n < 4294967296
  · exact .inl (if_pos hn)
  · exact .inr ⟨mt h hn, if_neg hn⟩

theorem reads_word32 (value : UInt32) :
    Reads ok word32 (signedLeb value.toInt32.toInt) value := by
  intro rest
  refine .inl ?_
  have hread := readSigned_signedLeb value.toInt32.toInt 32 rest value.toInt32.le_toInt
    value.toInt32.toInt_lt
  show (readSigned 32 _ >>= fun r => some ((Int32.ofInt r.1).toUInt32, r.2)) = _
  rw [hread]
  simp

theorem reads_word64 (value : Int64) : Reads ok word64 (signedLeb value.toInt) value := by
  intro rest
  refine .inl ?_
  have hread := readSigned_signedLeb value.toInt 64 rest value.le_toInt value.toInt_lt
  show (readSigned 64 _ >>= fun r => some (Int64.ofInt r.1, r.2)) = _
  rw [hread]
  simp

theorem reads_bytes (bs : List UInt8) : Reads ok (bytes bs.length) bs bs := by
  intro rest
  refine .inl ?_
  rw [bytes, if_neg (by simp), List.take_left, List.drop_left]

/-! ## Sequences and sizes -/

theorem reads_repeated {item : Decoder β} {encode : α → List UInt8} {g : α → β} :
    ∀ (xs : List α) (before : List β), (∀ x ∈ xs, Reads ok item (encode x) (g x)) →
      Reads ok (repeated item xs.length before) (xs.flatMap encode) (before.reverse ++ xs.map g)
  | [], before, _ => by
    rw [List.map_nil, List.append_nil]
    exact .pure _
  | x :: xs, before, h => by
    rw [List.flatMap_cons, show before.reverse ++ (x :: xs).map g =
      (g x :: before).reverse ++ xs.map g by simp]
    exact (h x (by simp)).bind (reads_repeated xs _ fun y hy => h y (by simp [hy]))

theorem length_le_encodeVec (encode : α → List UInt8) {xs : List α} (h : ∀ x ∈ xs, encode x ≠ []) :
    xs.length ≤ (encodeVec encode xs).length := by
  have : xs.length ≤ (xs.flatMap encode).length := by
    induction xs with
    | nil => simp
    | cons x xs ih =>
      have hx := List.length_pos_iff.2 (h x (by simp))
      have hxs := ih fun y hy => h y (by simp [hy])
      simp only [List.length_cons, List.flatMap_cons, List.length_append]
      omega
  simp only [encodeVec, List.length_append]
  omega

theorem length_encode_le_encodeVec (encode : α → List UInt8) {xs : List α} {x : α} (hx : x ∈ xs) :
    (encode x).length ≤ (encodeVec encode xs).length := by
  have : (encode x).length ≤ (xs.flatMap encode).length := by
    induction xs with
    | nil => simp at hx
    | cons y ys ih =>
      rw [List.flatMap_cons, List.length_append]
      rcases List.mem_cons.1 hx with rfl | hx
      · omega
      · have := ih hx
        omega
  simp only [encodeVec, List.length_append]
  omega

/-- A sequence is read back whose bytes are few enough, as then its items are. -/
theorem reads_vec {item : Decoder β} {encode : α → List UInt8} {g : α → β} {xs : List α}
    (hsize : ok → (encodeVec encode xs).length < 4294967296) (hnil : ∀ x ∈ xs, encode x ≠ [])
    (h : ∀ x ∈ xs, (ok → (encode x).length < 4294967296) → Reads ok item (encode x) (g x)) :
    Reads ok (vec item) (encodeVec encode xs) (xs.map g) :=
  (reads_u32 fun hok => Nat.lt_of_le_of_lt (length_le_encodeVec encode hnil) (hsize hok)).bind
    (reads_repeated xs [] fun x hx =>
      h x hx fun hok => Nat.lt_of_le_of_lt (length_encode_le_encodeVec encode hx) (hsize hok))

theorem reads_vec_self {item : Decoder α} {encode : α → List UInt8} {xs : List α}
    (hsize : ok → (encodeVec encode xs).length < 4294967296) (hnil : ∀ x ∈ xs, encode x ≠ [])
    (h : ∀ x ∈ xs, (ok → (encode x).length < 4294967296) → Reads ok item (encode x) x) :
    Reads ok (vec item) (encodeVec encode xs) xs := by
  have := reads_vec (g := id) hsize hnil h
  rwa [List.map_id] at this

theorem reads_sized {contents : Decoder α} {bs : List UInt8} {x : α}
    (hlength : ok → bs.length < 4294967296) (h : Reads ok contents bs x) :
    Reads ok (sized contents) (encodeSized bs) x := by
  refine (reads_u32 hlength).bind ((reads_bytes bs).bind_pure fun rest => ?_)
  have := h []
  rw [List.append_nil] at this
  rcases this with h | ⟨hok, h⟩
  · refine .inl ?_
    rw [h]
    rfl
  · refine .inr ⟨hok, ?_⟩
    rw [h]
    rfl

/-- A name that may be in a module. -/
def NameFits (s : String) : Prop := (textBytes s).length ≤ maxNameBytes

theorem reads_name {s : String} (hmax : NameFits s) : Reads ok name (encodeName s) s := by
  have hmost : maxNameBytes = 100000 := rfl
  unfold NameFits at hmax
  refine (reads_u32 fun _ => by omega).bind ?_
  rw [if_neg (by omega)]
  refine (reads_bytes (textBytes s)).bind_pure ?_
  rw [fromUTF8?_textBytes]
  exact .pure s

end Decoder

end Stampline.Wasm
