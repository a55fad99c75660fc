import Stampline.Evaluation.Arithmetic
import Stampline.Lowering.Code
import Stampline.Wasm.Arithmetic

/-!
# Operators

The instructions of operators compute what the operators mean. An operator is said of integers and
its instruction of words, so that these are statements about wrapping: a word is determined by the
integer that it stands for up to a multiple of its range.
-/

namespace Stampline

open Wasm (Numeric Value ArithOp RelOp ofBool)

/-- The operation on words that an arithmetic operator is compiled to. -/
def BinaryOp.word : BinaryOp → ArithOp
  | add => .add
  | sub => .sub
  | mul => .mul
  | div => .divS
  | rem => .remS

/-- The comparison of words that a comparison is compiled to. -/
def Comparison.word : Comparison → RelOp
  | equal => .eq
  | notEqual => .ne
  | less => .ltS
  | lessEqual => .leS
  | greater => .gtS
  | greaterEqual => .geS

theorem BinaryOp.code_eq (op : BinaryOp) : op.code = .numeric (.arith .w64 op.word) := by
  cases op <;> rfl

theorem Comparison.code_eq (op : Comparison) : op.code = .numeric (.compare .w64 op.word) := by
  cases op <;> rfl

theorem toInt_eq_zero_iff {a : Int64} : a.toInt = 0 ↔ a = 0 := by
  rw [← Int64.toInt_zero, Int64.toInt_inj]

/-- A quotient of words is one of integers, unless it does not fit. -/
theorem toInt_div_of_fits {a b : Int64} (h : ¬(a = Int64.minValue ∧ b = -1)) :
    (a / b).toInt = a.toInt.tdiv b.toInt := by
  by_cases ha : a = Int64.minValue
  · exact Int64.toInt_div_of_ne_right a b fun hb => h ⟨ha, hb⟩
  · exact Int64.toInt_div_of_ne_left a b ha

/-- One quotient alone does not fit into a word. -/
theorem maxValue_lt_tdiv_iff {a b : Int64} :
    Int64.maxValue.toInt < a.toInt.tdiv b.toInt ↔ a = Int64.minValue ∧ b = -1 := by
  constructor
  · intro hlt
    refine Decidable.by_contra fun hne => ?_
    have := (a / b).toInt_le
    rw [toInt_div_of_fits hne] at this
    omega
  · rintro ⟨rfl, rfl⟩
    decide

/-- An operator applied to integers yields the word that its operation yields, or the same fault. -/
theorem BinaryOp.apply_eq (op : BinaryOp) (a b : Int64) : op.apply a b = op.word.apply a b := by
  cases op with
  | add => simp [BinaryOp.apply, ArithOp.apply, word, wrap]
  | sub => simp [BinaryOp.apply, ArithOp.apply, word, wrap]
  | mul => simp [BinaryOp.apply, ArithOp.apply, word, wrap]
  | div =>
    simp only [BinaryOp.apply, ArithOp.apply, word, toInt_eq_zero_iff, maxValue_lt_tdiv_iff]
    split
    · rfl
    · split
      · rfl
      · rw [wrap, ← toInt_div_of_fits ‹_›, Int64.ofInt_toInt]
  | rem =>
    simp only [BinaryOp.apply, ArithOp.apply, word, toInt_eq_zero_iff, wrap, ← Int64.toInt_mod,
      Int64.ofInt_toInt]

theorem Comparison.holds_eq (op : Comparison) (a b : Int64) :
    op.holds a b = op.word.holds a b := by
  cases op <;> simp [Comparison.holds, RelOp.holds, word, Int64.lt_iff_toInt_lt,
    Int64.le_iff_toInt_le, Int64.toInt_inj, BEq.beq, bne]

theorem BinaryOp.apply_word (op : BinaryOp) (a b : Int64) (stack : List Value) :
    (Numeric.arith .w64 op.word).apply (.i64 b :: .i64 a :: stack) =
      some ((op.apply a b).map .i64, stack) := by
  rw [Numeric.apply, op.apply_eq]

theorem Comparison.apply_word (op : Comparison) (a b : Int64) (stack : List Value) :
    (Numeric.compare .w64 op.word).apply (.i64 b :: .i64 a :: stack) =
      some (.ok (.i32 (ofBool (op.holds a b))), stack) := by
  rw [Numeric.apply, op.holds_eq]

/-- A negation is a difference from zero. -/
theorem apply_negate (a : Int64) (stack : List Value) :
    (Numeric.arith .w64 .sub).apply (.i64 a :: .i64 0 :: stack) =
      some (.ok (.i64 (wrap (-a.toInt))), stack) := by
  simp [Numeric.apply, ArithOp.apply, wrap, Except.map]

/-- A truth value as an integer. -/
theorem apply_extend (h : Bool) (stack : List Value) :
    (Numeric.extend false).apply (.i32 (ofBool h) :: stack) =
      some (.ok (.i64 (if h then 1 else 0)), stack) := by
  cases h <;> rfl

/-- A test for being other than zero. -/
theorem apply_notEqual_zero (a : Int64) (stack : List Value) :
    (Numeric.compare .w64 (Comparison.word .notEqual)).apply (.i64 0 :: .i64 a :: stack) =
      some (.ok (.i32 (ofBool (decide (a ≠ 0)))), stack) := by
  rw [Comparison.apply_word]
  simp [Comparison.holds, ← Int64.toInt_inj]

theorem apply_isZero (a : Int64) (stack : List Value) :
    (Numeric.isZero .w64).apply (.i64 a :: stack) =
      some (.ok (.i32 (ofBool (decide (a = 0)))), stack) := by
  rw [Numeric.apply]
  rfl

theorem ofBool_eq_zero_iff {h : Bool} : ofBool h = 0 ↔ h = false := by
  cases h <;> decide

end Stampline
