import Mathlib.Algebra.Group.Int.Defs
import Mathlib.Algebra.Group.Nat.Defs

/-!
# `Console` — printed output, ASSERT and C integers

The vocabulary the modules share. `Out` is one call of a console function as its caller makes it; what
the call does to the terminal is the subject of `Terminal`. `assert` is the kernel's `ASSERT` macro in
code whose only other effect is a result.
-/

namespace SysproKernel

/-- One call of `puts` or `puth`. -/
inductive Out where
  | puts (str : String)
  | puth (value digitsLen : Nat)
  deriving DecidableEq, Repr

/-- `ASSERT(cond)`: on failure the text is printed and the machine spins. -/
def assert (cond : Bool) (text : String) : Except String Unit :=
  if cond then .ok () else .error ("assert: " ++ text)

theorem assert_ok {cond : Bool} {text : String} (h : cond = true) : assert cond text = .ok () := by
  rw [assert, if_pos h]

/-- Conversion to a 32-bit `int`. -/
def toInt32 (n : Nat) : Int := (BitVec.ofNat 32 n).toInt

end SysproKernel
