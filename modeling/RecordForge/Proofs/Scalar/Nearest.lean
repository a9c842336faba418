import RecordForge.Proofs.Scalar.Floats

/-!
# The nearest magnitude

What `Format.nearest` does for every quotient: it depends on the quotient only, not on how that is written
(`Format.nearest_congr`); a magnitude of the format is its own nearest one (`Format.nearest_units`), since
codes are ordered as the magnitudes that they stand for (`Format.units_strictMono`); a quotient that is
very large goes to infinity, and one below half a step goes to zero.
-/

namespace RecordForge

/-- Rounding depends on the quotient only. -/
theorem divEven_congr {n d n' d' : ℕ} (hd : 0 < d) (hd' : 0 < d') (h : n * d' = n' * d) :
    divEven n d = divEven n' d' := by
  have hq : (n / d : ℚ) = n' / d' := by
    rw [div_eq_div_iff (by positivity) (by positivity)]
    exact_mod_cast h
  have hround := nearestEven_divEven n' hd'
  rw [← hq] at hround
  exact_mod_cast hround.unique (nearestEven_divEven n hd)

namespace Binary.Format

variable {g : Format} {n d n' d' : ℕ}

/-- The nearest magnitude depends on the quotient only. -/
theorem nearest_congr (hd : 0 < d) (hd' : 0 < d') (h : n * d' = n' * d) :
    g.nearest n d = g.nearest n' d' := by
  have hdiv : n / d = n' / d' := by
    rw [← Nat.mul_div_mul_right n d hd', h, Nat.mul_comm d d', Nat.mul_div_mul_right n' d' hd]
  simp only [nearest, hdiv, Nat.pow_eq]
  have hpos := Nat.two_pow_pos ((n' / d').log2 - g.fraction)
  rw [divEven_congr (Nat.mul_pos hd hpos) (Nat.mul_pos hd' hpos)]
  rw [← Nat.mul_assoc, h, ← Nat.mul_assoc]

/-! ## Magnitudes of the format -/

/-- Codes are ordered as the magnitudes that they stand for. -/
theorem units_strictMono : StrictMono g.units := by
  refine strictMono_nat_of_lt_succ fun code => ?_
  have hpos := Nat.two_pow_pos g.fraction
  obtain ⟨e, r, hr, rfl⟩ : ∃ e r, r < 2 ^ g.fraction ∧ code = 2 ^ g.fraction * e + r :=
    ⟨_, _, Nat.mod_lt code hpos, (Nat.div_add_mod _ _).symm⟩
  have hunits : ∀ {e r}, r < 2 ^ g.fraction → g.units (2 ^ g.fraction * e + r) =
      if e = 0 then r else (2 ^ g.fraction + r) * 2 ^ (e - 1) := by
    intro e r hr
    simp only [units, Nat.pow_eq, Nat.mul_add_div hpos, Nat.div_eq_of_lt hr, Nat.mul_add_mod,
      Nat.mod_eq_of_lt hr, Nat.add_zero]
    split
    · next hzero => rw [hzero, Nat.mul_zero, Nat.zero_add]
    · rfl
  rw [hunits hr]
  by_cases hcarry : r + 1 < 2 ^ g.fraction
  · -- the exponent field stays
    rw [Nat.add_assoc, hunits hcarry]
    split
    · exact Nat.lt_succ_self r
    · exact Nat.mul_lt_mul_of_pos_right (by omega) (Nat.two_pow_pos _)
  · -- the fraction carries into the exponent field
    have hnext : 2 ^ g.fraction * e + r + 1 = 2 ^ g.fraction * (e + 1) + 0 := by
      rw [Nat.mul_succ]
      omega
    rw [hnext, hunits hpos, if_neg e.succ_ne_zero, Nat.add_sub_cancel, Nat.add_zero]
    split
    · next hzero =>
      rw [hzero, Nat.pow_zero, Nat.mul_one]
      exact hr
    · next hne =>
      obtain ⟨k, rfl⟩ := Nat.exists_eq_succ_of_ne_zero hne
      rw [Nat.succ_sub_one, Nat.pow_succ, Nat.mul_comm (2 ^ k) 2, ← Nat.mul_assoc]
      exact Nat.mul_lt_mul_of_pos_right (by omega) (Nat.two_pow_pos k)

/-- A magnitude of the format is its own nearest one. -/
theorem nearest_units (hg : 2 ≤ g.exponent) {code : ℕ} (hcode : code < g.infinity) (hd : 0 < d) :
    g.nearest (g.units code * d) d = code := by
  let x : Binary g := ⟨false, code, hcode.trans infinity_lt_codes⟩
  have hfour : 2 ^ 2 ≤ 2 ^ g.exponent := Nat.pow_le_pow_right two_pos hg
  have hfield : x.exponentField - 1 + 3 ≤ 2 ^ g.exponent := by
    have hlt := x.exponentField_lt
    have hne := isFinite_iff.mp (show x.isFinite = true from decide_eq_true hcode)
    omega
  have hunits := (units_nearest x.significand_lt hfield hd).2
  rw [← units_eq x] at hunits
  exact units_strictMono.injective hunits

/-! ## Quotients out of range -/

/-- Below half a step there is only zero. -/
theorem nearest_eq_zero (h : 2 * n < d) : g.nearest n d = 0 := by
  have hdiv : n / d = 0 := Nat.div_eq_of_lt (by omega)
  have hmod : n % d = n := Nat.mod_eq_of_lt (by omega)
  simp [nearest, hdiv, divEven, hmod, h]

/-- A quotient of very many steps goes to infinity. -/
theorem nearest_eq_infinity (hd : 0 < d) (h : 2 ^ (2 ^ g.exponent + g.fraction) * d ≤ n) :
    g.nearest n d = g.infinity := by
  have hdiv : 2 ^ (2 ^ g.exponent + g.fraction) ≤ n / d := (Nat.le_div_iff_mul_le hd).mpr h
  have hlog : 2 ^ g.exponent + g.fraction ≤ (n / d).log2 :=
    (Nat.le_log2 (Nat.ne_of_gt ((Nat.two_pow_pos _).trans_le hdiv))).mpr hdiv
  rw [nearest]
  refine min_eq_right ?_
  calc g.infinity = (2 ^ g.exponent - 1) * 2 ^ g.fraction := rfl
    _ ≤ ((n / d).log2 - g.fraction) * 2 ^ g.fraction := Nat.mul_le_mul_right _ (by omega)
    _ ≤ _ := Nat.le_add_right _ _

end Binary.Format

end RecordForge
