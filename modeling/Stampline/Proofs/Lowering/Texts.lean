import Stampline.Lowering.Lower
import Stampline.Proofs.Lowering.Arguments
import Stampline.Proofs.Wasm.Bytes
import Stampline.Wasm.Instance

/-!
# Texts in memory

The texts of a pool lie in memory where the pool says that they lie: each of them is read back from
its place, as long as all of them together are less than the range of a word of 32 bits.
-/

namespace Stampline

open Wasm (constantsOf textBytes length_textBytes Memory)

namespace TextPool

variable {pool : TextPool} {text : String}

/-- A text whose place code refers to is in the pool of the code. -/
theorem mem_ofCode {code : List Code} (h : TextPart.offset text ∈ constantsOf code) :
    text ∈ (ofCode code).texts :=
  mem_distinctAfter.2 (List.mem_filterMap.2 ⟨_, h, rfl⟩)

/-- Where a text lies among the texts before and behind it. -/
theorem bytes_eq (h : text ∈ pool.texts) : ∃ before after,
    pool.bytes = before ++ textBytes text ++ after ∧ before.length = pool.offset text := by
  obtain ⟨texts⟩ := pool
  induction texts with
  | nil => simp at h
  | cons t texts ih =>
    by_cases ht : t = text
    · subst ht
      exact ⟨[], texts.flatMap textBytes, by simp [bytes], by simp [offset]⟩
    · obtain ⟨before, after, hbytes, hlength⟩ := ih ((List.mem_cons.1 h).resolve_left (Ne.symm ht))
      refine ⟨textBytes t ++ before, after, ?_, ?_⟩
      · have hcons : bytes ⟨t :: texts⟩ = textBytes t ++ bytes ⟨texts⟩ := by simp [bytes]
        rw [hcons, hbytes]
        simp only [List.append_assoc]
      · have hcons : offset ⟨t :: texts⟩ text = t.utf8ByteSize + offset ⟨texts⟩ text := by
          simp [offset, ht]
        rw [List.length_append, length_textBytes, hlength, hcons]

theorem offset_add_size_le (h : text ∈ pool.texts) :
    pool.offset text + text.utf8ByteSize ≤ pool.bytes.length := by
  obtain ⟨before, after, hbytes, hlength⟩ := bytes_eq h
  rw [hbytes, List.length_append, List.length_append, hlength, length_textBytes]
  omega

theorem toNat_resolve (h : text ∈ pool.texts) (hsize : pool.bytes.length < 4294967296) :
    (pool.resolve (.offset text)).toNat = pool.offset text ∧
      (pool.resolve (.size text)).toNat = text.utf8ByteSize := by
  have hle := offset_add_size_le h
  exact ⟨UInt32.toNat_ofNat_of_lt (show _ < 4294967296 by omega),
    UInt32.toNat_ofNat_of_lt (show _ < 4294967296 by omega)⟩

/-- The memory has room for all texts. -/
theorem length_bytes_le_size (pool : TextPool) :
    pool.bytes.length ≤ pool.limits.min * Wasm.pageSize := by
  have hpage : Wasm.pageSize = 65536 := rfl
  simp only [limits, hpage]
  omega

/-- The memory that holds the texts of the pool. -/
def memory (pool : TextPool) : Memory :=
  { limits := pool.limits
    size := pool.limits.min * Wasm.pageSize
    segments := if pool.bytes.isEmpty then [] else [(0, pool.bytes.toArray)] }

theorem ofSegments?_segments (pool : TextPool) :
    Memory.ofSegments? pool.limits (pool.segments.filterMap fun s =>
      (s.mode.place? 0).map (·, s.bytes)) = some pool.memory := by
  have hsize := pool.length_bytes_le_size
  unfold segments memory
  split
  · rfl
  · simp [Memory.ofSegments?, Wasm.SegmentMode.place?, Wasm.Constant.value?,
      Wasm.Constant.valueAfter, Wasm.Value.unsigned?, hsize]

theorem byte_memory (pool : TextPool) (address : Nat) :
    pool.memory.byte address = pool.bytes.getD address 0 := by
  have hnone : pool.memory.written[address]? = none := by simp [memory]
  unfold Memory.byte
  rw [hnone]
  simp only [memory]
  split
  · rename_i hempty
    simp [List.isEmpty_iff.1 hempty, Memory.byteOf]
  · simp only [Memory.byteOf, Nat.zero_add, Nat.zero_le, true_and, List.size_toArray,
      Nat.sub_zero]
    split
    · rename_i hlt
      simp [hlt]
    · rename_i hlt
      simp [List.getElem?_eq_none (Nat.le_of_not_lt hlt)]

/-- Where a text lies in memory. -/
theorem take_drop_bytes (h : text ∈ pool.texts) :
    (pool.bytes.drop (pool.offset text)).take text.utf8ByteSize = textBytes text := by
  obtain ⟨before, after, hbytes, hlength⟩ := bytes_eq h
  rw [hbytes, ← hlength, List.append_assoc, List.drop_left, ← length_textBytes, List.take_left]

/-- Whatever bytes are those of a text, the text is read from them. -/
theorem readText_memory_of_bytes {start size : Nat} (hle : start + size ≤ pool.bytes.length)
    (hbytes : (pool.bytes.drop start).take size = textBytes text) :
    pool.memory.readText start size = .ok text := by
  have hcovers : pool.memory.covers start size = true :=
    decide_eq_true (Nat.le_trans hle pool.length_bytes_le_size)
  have hread : (List.range' start size).map pool.memory.byte = (pool.bytes.drop start).take size := by
    refine List.ext_getElem (by simp; omega) fun i hi hi' => ?_
    have hlt : start + i < pool.bytes.length := by
      rw [List.length_map, List.length_range'] at hi
      omega
    rw [List.getElem_map, List.getElem_range', Nat.one_mul, byte_memory, List.getElem_take,
      List.getElem_drop, List.getD_eq_getElem?_getD, List.getElem?_eq_getElem hlt, Option.getD_some]
  rw [Memory.readText, Memory.read, if_pos hcovers, hread, hbytes]
  simp only [Wasm.fromUTF8?_textBytes]

/-- Each text of the pool is read back from its place. -/
theorem readText_memory (h : text ∈ pool.texts) (hsize : pool.bytes.length < 4294967296) :
    pool.memory.readText (pool.resolve (.offset text)).toNat (pool.resolve (.size text)).toNat =
      .ok text := by
  obtain ⟨hoffset, hlength⟩ := toNat_resolve h hsize
  rw [hoffset, hlength]
  exact readText_memory_of_bytes (offset_add_size_le h) (take_drop_bytes h)

end TextPool

end Stampline
