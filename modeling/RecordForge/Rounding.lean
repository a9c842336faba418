/-!
# Rounding a quotient

The natural nearest to a quotient, a tie going to the even neighbour. Everything here that rounds
rounds this way: binary numbers to their grid, and fractions to integers.
-/

namespace RecordForge

/-- The natural nearest to `n / d`; of two equally near ones, the even one. -/
def divEven (n d : Nat) : Nat :=
  let q := n / d
  let r := n % d
  if 2 * r < d then q
  else if d < 2 * r then q + 1
  else if q % 2 = 0 then q else q + 1

/-- A quotient that comes out even is not changed. -/
theorem divEven_mul {n d : Nat} (h : 0 < d) : divEven (n * d) d = n := by
  simp [divEven, Nat.mul_mod_left, Nat.mul_div_cancel _ h, h]

end RecordForge
