import Stampline.Syntax.Basic
import Stampline.Host.Environment

/-!
# Arithmetic

What the operators of the language compute, said of integers: the result is taken in the integers
and then brought into 64 bits.
-/

namespace Stampline

/-- The integer of 64 bits that is congruent to an integer. -/
def wrap (n : Int) : Int64 := Int64.ofInt n

/-- The value of an arithmetic operation. Sums, differences and products wrap around, and quotients
are truncated, with a remainder of the sign of the dividend. There is nothing to divide by zero, and
the one quotient that does not fit faults. -/
def BinaryOp.apply (op : BinaryOp) (a b : Int64) : Except Fault Int64 :=
  match op with
  | add => .ok (wrap (a.toInt + b.toInt))
  | sub => .ok (wrap (a.toInt - b.toInt))
  | mul => .ok (wrap (a.toInt * b.toInt))
  | div =>
    if b.toInt = 0 then .error .divisionByZero
    else if Int64.maxValue.toInt < a.toInt.tdiv b.toInt then .error .overflow
    else .ok (wrap (a.toInt.tdiv b.toInt))
  | rem =>
    if b.toInt = 0 then .error .divisionByZero else .ok (wrap (a.toInt.tmod b.toInt))

/-- Whether a comparison holds. -/
def Comparison.holds (op : Comparison) (a b : Int64) : Bool :=
  match op with
  | equal => decide (a.toInt = b.toInt)
  | notEqual => decide (a.toInt ≠ b.toInt)
  | less => decide (a.toInt < b.toInt)
  | lessEqual => decide (a.toInt ≤ b.toInt)
  | greater => decide (b.toInt < a.toInt)
  | greaterEqual => decide (b.toInt ≤ a.toInt)

end Stampline
