import Mathlib.Algebra.Order.Round
import Mathlib.Data.Rat.Floor
import Mathlib.Tactic.Linarith
import Mathlib.Tactic.FieldSimp
import Mathlib.Tactic.Ring
import RecordForge.Rounding

/-!
# The integer nearest to a rational

`NearestEven q n` says what it is to round `q` to `n`: no integer is nearer, and of two nearest ones `n`
is the even one. There is exactly one such integer for each rational (`NearestEven.unique`), and
`divEven` computes it for a quotient of naturals (`nearestEven_divEven`).
-/

namespace RecordForge

/-- An integer is the nearest to a rational, and the even one of two that are. -/
structure NearestEven (q : ℚ) (n : ℤ) : Prop where
  /-- No integer is nearer. -/
  nearest (m : ℤ) : |q - n| ≤ |q - m|
  /-- If another one is as near, this one is even. -/
  tie {m : ℤ} (hm : m ≠ n) (hdist : |q - m| = |q - n|) : Even n

namespace NearestEven

variable {q : ℚ} {n m : ℤ}

/-- Two integers are at least one apart, and so is the way from one to the other by a rational. -/
theorem one_le_dist_add_dist (hm : m ≠ n) : 1 ≤ |q - n| + |q - m| := by
  have hone : (1 : ℤ) ≤ |n - m| := Int.one_le_abs (sub_ne_zero.mpr (Ne.symm hm))
  calc (1 : ℚ) ≤ |(n : ℚ) - m| := by exact_mod_cast hone
    _ = |(q - m) - (q - n)| := by ring_nf
    _ ≤ |q - m| + |q - n| := abs_sub _ _
    _ = |q - n| + |q - m| := add_comm _ _

/-- An integer that is nearer than one half is the only nearest one. -/
theorem of_dist_lt_half (h : |q - n| < 1 / 2) : NearestEven q n where
  nearest m := by
    by_cases hm : m = n
    · rw [hm]
    · linarith [one_le_dist_add_dist (q := q) hm]
  tie {m} hm hdist := by linarith [one_le_dist_add_dist (q := q) hm]

/-- Of the two that are one half away, the even one is the nearest. -/
theorem of_dist_eq_half (h : |q - n| = 1 / 2) (heven : Even n) : NearestEven q n where
  nearest m := by
    by_cases hm : m = n
    · rw [hm]
    · linarith [one_le_dist_add_dist (q := q) hm]
  tie _ _ := heven

/-- The nearest integer is at most one half away. -/
theorem dist_le_half (h : NearestEven q n) : |q - n| ≤ 1 / 2 :=
  (h.nearest (round q)).trans (abs_sub_round q)

/-- A rational is rounded to one integer only. -/
theorem unique (hn : NearestEven q n) (hm : NearestEven q m) : m = n := by
  by_contra hne
  have hdist : |q - m| = |q - n| := le_antisymm (hm.nearest n) (hn.nearest m)
  have heven : Even (n - m) := (hn.tie hne hdist).sub (hm.tie (Ne.symm hne) hdist.symm)
  -- two even integers are two apart, but each is within one half
  have htwo : (2 : ℤ) ≤ |n - m| := by
    obtain ⟨k, hk⟩ := heven
    have hk0 : k ≠ 0 := by
      rintro rfl
      exact hne (by omega)
    have := Int.one_le_abs hk0
    rw [hk, ← two_mul, abs_mul, abs_two]
    omega
  have hle : |(n : ℚ) - m| ≤ 1 := by
    calc |(n : ℚ) - m| = |(q - m) - (q - n)| := by ring_nf
      _ ≤ |q - m| + |q - n| := abs_sub _ _
      _ ≤ 1 := by linarith [hn.dist_le_half]
  have hle' : |n - m| ≤ (1 : ℤ) := by exact_mod_cast hle
  omega

/-- The opposite is rounded to the opposite. -/
theorem neg (h : NearestEven q n) : NearestEven (-q) (-n) := by
  have hdist : ∀ m : ℤ, |-q - m| = |q - (-m : ℤ)| := fun m => by
    rw [← abs_neg]
    push_cast
    ring_nf
  constructor
  · intro m
    rw [hdist, hdist, neg_neg]
    exact h.nearest _
  · intro m hm heq
    rw [hdist, hdist, neg_neg] at heq
    exact (h.tie (fun hmn => hm (by omega)) heq).neg

end NearestEven

/-- The way from a quotient to an integer that is off by a remainder. -/
theorem dist_of_eq_mul_add {n d : ℕ} (hd : 0 < d) {k r : ℤ} (h : (n : ℤ) = d * k + r) :
    |(n / d : ℚ) - k| = |(r : ℚ)| / d := by
  have hd' : (0 : ℚ) < d := by exact_mod_cast hd
  have hn : (n : ℚ) = d * k + r := by exact_mod_cast h
  rw [hn, ← abs_of_pos hd', ← abs_div, abs_of_pos hd']
  congr 1
  field_simp
  ring

/-- Dividing naturals rounds the quotient. -/
theorem nearestEven_divEven (n : ℕ) {d : ℕ} (hd : 0 < d) :
    NearestEven (n / d) (divEven n d : ℕ) := by
  have hd' : (0 : ℚ) < d := by exact_mod_cast hd
  have hmod : n % d < d := Nat.mod_lt n hd
  have hdown : (n : ℤ) = d * (n / d : ℕ) + (n % d : ℕ) := by
    exact_mod_cast (Nat.div_add_mod n d).symm
  have hup : (n : ℤ) = d * (n / d + 1 : ℕ) + ((n % d : ℕ) - d : ℤ) := by
    rw [hdown]
    push_cast
    ring
  have hdist_up : |(((n % d : ℕ) - d : ℤ) : ℚ)| = d - (n % d : ℕ) := by
    have : ((n % d : ℕ) : ℚ) < d := by exact_mod_cast hmod
    rw [Int.cast_sub, Int.cast_natCast, Int.cast_natCast, abs_of_neg (by linarith), neg_sub]
  rw [divEven]
  split_ifs with hlow hhigh heven
  · -- less than half a step is left
    refine .of_dist_lt_half ?_
    have : (2 : ℚ) * (n % d : ℕ) < d := by exact_mod_cast hlow
    rw [dist_of_eq_mul_add hd hdown, Int.cast_natCast, Nat.abs_cast, div_lt_iff₀ hd']
    linarith
  · -- less than half a step is missing
    refine .of_dist_lt_half ?_
    have : (d : ℚ) < 2 * (n % d : ℕ) := by exact_mod_cast hhigh
    rw [dist_of_eq_mul_add hd hup, hdist_up, div_lt_iff₀ hd']
    linarith
  all_goals
    have htie : (2 : ℚ) * (n % d : ℕ) = d := by exact_mod_cast (show 2 * (n % d) = d by omega)
  · refine .of_dist_eq_half ?_ ?_
    · rw [dist_of_eq_mul_add hd hdown, Int.cast_natCast, Nat.abs_cast, div_eq_iff hd'.ne']
      linarith
    · exact_mod_cast Nat.even_iff.mpr heven
  · refine .of_dist_eq_half ?_ ?_
    · rw [dist_of_eq_mul_add hd hup, hdist_up, div_eq_iff hd'.ne']
      linarith
    · have : Even (n / d + 1) := Nat.even_iff.mpr (by omega)
      exact_mod_cast this

end RecordForge
