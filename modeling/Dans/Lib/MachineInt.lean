import Mathlib.Algebra.Group.Int.Defs
import Mathlib.Algebra.Group.Nat.Defs

/-! Thirty-two bit integers of C++ over `Int` and `Nat`: the range of `int`, the conversions between `int` and
    `unsigned`, and `int` arithmetic, which is undefined where the result is out of range. -/

namespace MachineInt

/-- The value is one of `int`. -/
def InInt (n : Int) : Prop := -2 ^ 31 ≤ n ∧ n < 2 ^ 31

instance (n : Int) : Decidable (InInt n) := inferInstanceAs (Decidable (-2 ^ 31 ≤ n ∧ n < 2 ^ 31))

/-- The conversion of an `unsigned` to `int`. -/
def asInt (n : Nat) : Int := Int.bmod n (2 ^ 32)

/-- The conversion of an `int` to `unsigned`. -/
def asUnsigned (n : Int) : Nat := (n % 2 ^ 32).toNat

/-- The result of `int` arithmetic, where it is defined. -/
def checked (n : Int) : Option Int := if InInt n then some n else none

theorem inInt_asInt (n : Nat) : InInt (asInt n) := by
  have hlow := Int.le_bmod (x := n) (m := 2 ^ 32) (by decide)
  have hhigh := Int.bmod_lt (x := n) (m := 2 ^ 32) (by decide)
  unfold InInt asInt
  omega

theorem asInt_of_lt {n : Nat} (h : n < 2 ^ 31) : asInt n = n := Int.bmod_eq_of_le (by omega) (by omega)

theorem checked_eq_some {n m : Int} : checked n = some m ↔ InInt n ∧ m = n := by
  unfold checked
  split <;> simp_all [eq_comm]

/-- Different values of `int` are different as `unsigned`. -/
theorem asUnsigned_inj {n m : Int} (hn : InInt n) (hm : InInt m) : asUnsigned n = asUnsigned m ↔ n = m := by
  unfold InInt at hn hm
  unfold asUnsigned
  omega

end MachineInt
