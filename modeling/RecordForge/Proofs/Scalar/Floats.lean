import RecordForge.Proofs.Scalar.Integers
import RecordForge.Proofs.Scalar.Rounding

/-!
# Floating-point numbers as integers

A finite number of a binary format is a rational, told by the fields of its bits (`Binary.toRat?`). Its
magnitude in smallest steps is the same rational (`Binary.toRat?_eq`), and a number of 32 bits is the same
rational with 64 (`Binary.toRat?_double`). So converting either to a kind of integers rounds the rational
once, to the nearest integer, and fails if that is out of the range of the kind
(`Schema.float_conversion`).
-/

namespace RecordForge

/-! ## Numbers by their fields -/

namespace Binary

/-- What is added to an exponent to get its field. -/
def Format.bias (f : Format) : Int := 2 ^ (f.exponent - 1) - 1

section Fields

variable {f : Format} (x : Binary f)

/-- The exponent field. -/
def exponentField : Nat := x.code / 2 ^ f.fraction

/-- The fraction field. -/
def fractionField : Nat := x.code % 2 ^ f.fraction

/-- The significand, counted in its last place: a leading one is in front of the fraction unless the
exponent field is zero. -/
def significand : Nat :=
  if x.exponentField = 0 then x.fractionField else 2 ^ f.fraction + x.fractionField

/-- The exponent of the last place of the significand. An exponent field of zero stands for the same scale
as a field of one. -/
def lastPlace : Int := (max 1 x.exponentField : Nat) - f.bias - f.fraction

/-- The rational that a number stands for; none if the exponent field is all ones. -/
def toRat? : Option ℚ :=
  if x.exponentField = 2 ^ f.exponent - 1 then none
  else some ((if x.negative then -1 else 1) * x.significand * 2 ^ x.lastPlace)

end Fields

section

variable {f : Format} {x : Binary f}

theorem fractionField_lt (x : Binary f) : x.fractionField < 2 ^ f.fraction :=
  Nat.mod_lt _ (Nat.two_pow_pos _)

theorem significand_lt (x : Binary f) : x.significand < 2 ^ (f.fraction + 1) := by
  have := x.fractionField_lt
  rw [significand, Nat.pow_succ]
  split <;> omega

theorem exponentField_lt (x : Binary f) : x.exponentField < 2 ^ f.exponent := by
  rw [exponentField, Nat.div_lt_iff_lt_mul (Nat.two_pow_pos _), ← Nat.pow_add]
  exact x.code_lt

/-- A number is finite unless its exponent field is all ones. -/
theorem isFinite_iff : x.isFinite = true ↔ x.exponentField ≠ 2 ^ f.exponent - 1 := by
  have hlt := x.exponentField_lt
  have hdiv : x.exponentField < 2 ^ f.exponent - 1 ↔ x.code < f.infinity :=
    Nat.div_lt_iff_lt_mul (Nat.two_pow_pos _)
  rw [isFinite, decide_eq_true_eq, ← hdiv]
  omega

/-- The magnitude in smallest steps: the significand, scaled by the exponent field. -/
theorem units_eq (x : Binary f) :
    f.units x.code = x.significand * 2 ^ (x.exponentField - 1) := by
  show (if x.exponentField = 0 then x.code
    else (2 ^ f.fraction + x.fractionField) * 2 ^ (x.exponentField - 1)) = _
  unfold significand
  by_cases hzero : x.exponentField = 0
  · -- the code is all fraction
    have hcode : 2 ^ f.fraction * x.exponentField + x.fractionField = x.code := Nat.div_add_mod _ _
    simp only [hzero, Nat.mul_zero, Nat.zero_add] at hcode
    simp [hzero, hcode]
  · simp [hzero]

/-- The last place, counted in smallest steps. -/
theorem two_zpow_lastPlace (hf : 2 ≤ f.exponent) (x : Binary f) :
    (2 : ℚ) ^ x.lastPlace = 2 ^ (x.exponentField - 1) / 2 ^ f.places := by
  have hbias : 2 ≤ 2 ^ (f.exponent - 1) := Nat.le_self_pow (by omega) 2
  have hlast : x.lastPlace = (x.exponentField - 1 : ℕ) - (f.places : ℕ) := by
    simp only [lastPlace, Format.bias, Format.places, Nat.pow_eq]
    push_cast [Nat.cast_sub hbias]
    omega
  rw [hlast, zpow_sub₀ two_ne_zero, zpow_natCast, zpow_natCast]

/-- A finite number stands for its magnitude in smallest steps. -/
theorem toRat?_eq (hf : 2 ≤ f.exponent) (hx : x.isFinite = true) : x.toRat? =
    some ((if x.negative then -1 else 1) * (f.units x.code / 2 ^ f.places : ℚ)) := by
  rw [toRat?, if_neg (isFinite_iff.mp hx), two_zpow_lastPlace hf, units_eq]
  push_cast
  ring_nf

theorem toRat?_eq_none_iff : x.toRat? = none ↔ x.isFinite = false := by
  rw [← Bool.not_eq_true, isFinite_iff, toRat?]
  split_ifs with h <;> simp [h]

end

/-! ## Rounding to an integer -/

section

variable {f : Format} {x : Binary f} {q : ℚ}

/-- A number is rounded to the integer nearest to its rational. -/
theorem toInt?_of_toRat (hf : 2 ≤ f.exponent) (hq : x.toRat? = some q) :
    ∃ n, x.toInt? = some n ∧ NearestEven q n := by
  have hx : x.isFinite = true := by
    rw [← Bool.not_eq_false, ← toRat?_eq_none_iff, hq]
    exact Option.some_ne_none q
  have hround := nearestEven_divEven (f.units x.code) (Nat.two_pow_pos f.places)
  rw [Nat.cast_pow, Nat.cast_two] at hround
  rw [toRat?_eq hf hx, Option.some.injEq] at hq
  subst hq
  refine ⟨_, if_pos hx, ?_⟩
  cases x.negative with
  | true =>
    rw [if_pos rfl, if_pos rfl, neg_one_mul]
    exact hround.neg
  | false =>
    rw [if_neg Bool.false_ne_true, if_neg Bool.false_ne_true, one_mul]
    exact hround

theorem toInt?_of_toRat_none (hq : x.toRat? = none) : x.toInt? = none := by
  rw [toInt?, toRat?_eq_none_iff.mp hq]
  rfl

end

/-! ## Widening -/

/-- Every finite magnitude of a format is one of another. -/
structure Format.Fits (f g : Format) : Prop where
  fraction : f.fraction ≤ g.fraction
  places : f.places ≤ g.places
  exponent : 2 ^ f.exponent + (g.places - f.places) ≤ 2 ^ g.exponent

theorem Format.single_fits_double : single.Fits double where
  fraction := by decide
  places := by decide
  exponent := by decide

namespace Format

variable {g : Format}

/-- A code is read back to the significand and the scale that it was put together from. -/
theorem units_of_significand {scale t : ℕ} (ht : t < 2 ^ (g.fraction + 1))
    (hlead : 0 < scale → 2 ^ g.fraction ≤ t) :
    g.units (scale * 2 ^ g.fraction + t) = t * 2 ^ scale := by
  have hpos := Nat.two_pow_pos g.fraction
  simp only [units, Nat.pow_eq]
  by_cases hsmall : t < 2 ^ g.fraction
  · obtain rfl : scale = 0 := by
      by_contra hscale
      exact absurd (hlead (Nat.pos_of_ne_zero hscale)) (by omega)
    rw [Nat.zero_mul, Nat.zero_add, Nat.div_eq_of_lt hsmall, if_pos rfl, Nat.pow_zero, Nat.mul_one]
  · obtain ⟨r, rfl⟩ := Nat.exists_eq_add_of_le (Nat.le_of_not_lt hsmall)
    have hr : r < 2 ^ g.fraction := by
      rw [Nat.pow_succ] at ht
      omega
    have hcode : scale * 2 ^ g.fraction + (2 ^ g.fraction + r) = r + 2 ^ g.fraction * (scale + 1) := by
      ring
    rw [hcode, Nat.add_mul_div_left _ _ hpos, Nat.add_mul_mod_self_left, Nat.div_eq_of_lt hr,
      Nat.mod_eq_of_lt hr, Nat.zero_add, if_neg scale.succ_ne_zero, Nat.add_sub_cancel]

/-- A magnitude of few bits is its own nearest one. -/
theorem units_nearest {m j d : ℕ} (hm : m < 2 ^ (g.fraction + 1)) (hj : j + 3 ≤ 2 ^ g.exponent)
    (hd : 0 < d) : g.nearest (m * 2 ^ j * d) d < g.infinity ∧
      g.units (g.nearest (m * 2 ^ j * d) d) = m * 2 ^ j := by
  obtain ⟨n, hn⟩ : ∃ n, m * 2 ^ j = n := ⟨_, rfl⟩
  obtain ⟨scale, hscale⟩ : ∃ scale, n.log2 - g.fraction = scale := ⟨_, rfl⟩
  have hlog : n.log2 < g.fraction + 1 + j := by
    by_cases hzero : n = 0
    · rw [hzero, Nat.log2_zero]
      omega
    · rw [Nat.log2_lt hzero, ← hn, Nat.pow_add]
      exact Nat.mul_lt_mul_of_pos_right hm (Nat.two_pow_pos j)
  -- the excess of leading bits is no more than the zeros at the end
  obtain ⟨k, rfl⟩ : ∃ k, j = k + scale := Nat.exists_eq_add_of_le' (by omega)
  have hsplit : n = m * 2 ^ k * 2 ^ scale := by rw [← hn, Nat.pow_add, Nat.mul_assoc]
  have hdiv : divEven (n * d) (d * 2 ^ scale) = m * 2 ^ k := by
    rw [hsplit, show m * 2 ^ k * 2 ^ scale * d = m * 2 ^ k * (d * 2 ^ scale) by ring]
    exact divEven_mul (Nat.mul_pos hd (Nat.two_pow_pos scale))
  have hlt : m * 2 ^ k < 2 ^ (g.fraction + 1) := by
    refine lt_of_mul_lt_mul_right (a := 2 ^ scale) ?_ (Nat.zero_le _)
    rw [← hsplit, ← Nat.pow_add]
    exact Nat.lt_log2_self.trans_le (Nat.pow_le_pow_right two_pos (by omega))
  have hlead : 0 < scale → 2 ^ g.fraction ≤ m * 2 ^ k := by
    intro hpos
    have hzero : n ≠ 0 := by
      rintro h
      rw [h, Nat.log2_zero] at hscale
      omega
    refine le_of_mul_le_mul_right (a := 2 ^ scale) ?_ (Nat.two_pow_pos scale)
    rw [← hsplit, ← Nat.pow_add, show g.fraction + scale = n.log2 by omega]
    exact Nat.log2_self_le hzero
  have hfinite : scale * 2 ^ g.fraction + m * 2 ^ k < g.infinity := by
    rw [infinity, Nat.pow_eq, Nat.pow_eq]
    calc scale * 2 ^ g.fraction + m * 2 ^ k < scale * 2 ^ g.fraction + 2 ^ (g.fraction + 1) := by omega
      _ = (scale + 2) * 2 ^ g.fraction := by ring
      _ ≤ (2 ^ g.exponent - 1) * 2 ^ g.fraction := Nat.mul_le_mul_right _ (by omega)
  have hnearest : g.nearest (n * d) d = scale * 2 ^ g.fraction + m * 2 ^ k := by
    simp only [nearest, Nat.pow_eq]
    rw [Nat.mul_div_cancel _ hd, hscale, hdiv, min_eq_left hfinite.le]
  rw [hn, hnearest]
  exact ⟨hfinite, (units_of_significand hlt hlead).trans hsplit.symm⟩

theorem infinity_lt_codes : g.infinity < g.codes := by
  have hpos := Nat.two_pow_pos g.fraction
  have hexp := Nat.two_pow_pos g.exponent
  rw [infinity, codes, Nat.pow_eq, Nat.pow_eq, Nat.pow_eq, Nat.pow_add]
  exact Nat.mul_lt_mul_of_pos_right (by omega) hpos

end Format

variable {f g : Format} {x : Binary f}

/-- A finite number is the same rational in a format that it fits into. -/
theorem toRat?_convert (hfits : f.Fits g) (hf : 2 ≤ f.exponent) (hg : 2 ≤ g.exponent)
    (hx : x.isFinite = true) : (x.convert : Binary g).toRat? = x.toRat? := by
  have hinf : x.code < f.infinity := of_decide_eq_true hx
  obtain ⟨k, hk⟩ := Nat.exists_eq_add_of_le hfits.places
  have hfour : 2 ^ 2 ≤ 2 ^ f.exponent := Nat.pow_le_pow_right two_pos hf
  have hexp : x.exponentField - 1 + k + 3 ≤ 2 ^ g.exponent := by
    have hfield := x.exponentField_lt
    have hne := isFinite_iff.mp hx
    have hroom := hfits.exponent
    omega
  obtain ⟨hfinite, hunits⟩ := Format.units_nearest (g := g) (d := 2 ^ f.places)
    (x.significand_lt.trans_le (Nat.pow_le_pow_right two_pos (by have := hfits.fraction; omega)))
    hexp (Nat.two_pow_pos _)
  have hscaled : f.units x.code * Nat.pow 2 g.places =
      x.significand * 2 ^ (x.exponentField - 1 + k) * 2 ^ f.places := by
    rw [units_eq, Nat.pow_eq, hk]
    ring
  have hconvert : (x.convert : Binary g) = ofCode x.negative
      (g.nearest (x.significand * 2 ^ (x.exponentField - 1 + k) * 2 ^ f.places) (2 ^ f.places)) := by
    rw [convert, if_neg (by simp [isNaN]; omega), if_neg (by simp [isInfinite]; omega), ofQuotient,
      hscaled]
    rfl
  have hcode : (x.convert : Binary g).code =
      g.nearest (x.significand * 2 ^ (x.exponentField - 1 + k) * 2 ^ f.places) (2 ^ f.places) := by
    rw [hconvert, ofCode]
    exact Nat.mod_eq_of_lt (hfinite.trans Format.infinity_lt_codes)
  have hsign : (x.convert : Binary g).negative = x.negative := by
    rw [hconvert, ofCode]
  rw [toRat?_eq hf hx, toRat?_eq hg (by rw [isFinite, hcode]; exact decide_eq_true hfinite), hsign,
    hcode, hunits, units_eq, hk]
  push_cast
  rw [pow_add, pow_add, ← mul_assoc, mul_div_mul_right _ _ (by positivity)]

/-- A number of 32 bits is the same rational with 64; an infinity stays one, and so does NaN. -/
theorem toRat?_double (x : Single) : (x.convert : Double).toRat? = x.toRat? := by
  by_cases hx : x.isFinite = true
  · exact toRat?_convert Format.single_fits_double (by decide) (by decide) hx
  · have hnan : (nan : Double).isFinite = false := by decide
    have hinf : ∀ negative, (infinite negative : Double).isFinite = false := by decide
    rw [Bool.not_eq_true] at hx
    rw [toRat?_eq_none_iff.mpr hx, toRat?_eq_none_iff]
    have hcode : Format.single.infinity ≤ x.code := Nat.le_of_not_lt (of_decide_eq_false hx)
    rw [convert]
    split_ifs with hisnan hisinf
    · exact hnan
    · exact hinf _
    · simp only [isNaN, isInfinite, decide_eq_true_eq, beq_iff_eq] at hisnan hisinf
      omega

end Binary

/-! ## Conversion -/

/-- A scalar is a floating-point number, with the rational that it stands for if it does. -/
inductive Scalar.Floating : Scalar → Option ℚ → Prop
  | single (x : Single) : Floating (.single x) x.toRat?
  | double (x : Double) : Floating (.double x) x.toRat?

namespace Scalar

variable {x : Scalar} {q : ℚ}

/-- Either kind is converted as a number of 64 bits that stands for the same rational. -/
theorem Floating.exists_double {q? : Option ℚ} (h : x.Floating q?) :
    ∃ y : Double, x.number? = some (.float y) ∧ y.toRat? = q? := by
  cases h with
  | single x => exact ⟨x.convert, rfl, Binary.toRat?_double x⟩
  | double x => exact ⟨x, rfl, rfl⟩

/-- A floating-point number is rounded to the nearest integer, unless that has more than 128 bits. -/
theorem Floating.toInt? (h : x.Floating (some q)) :
    ∃ n, NearestEven q n ∧ x.number?.bind Number.toInt? = (some n).filter isWideInteger := by
  obtain ⟨y, hy, hexact⟩ := h.exists_double
  obtain ⟨n, hn, hnear⟩ := Binary.toInt?_of_toRat (by decide) hexact
  refine ⟨n, hnear, ?_⟩
  rw [hy, Option.bind_some, Number.toInt?, hn]

theorem Floating.toInt?_none (h : x.Floating none) : x.number?.bind Number.toInt? = none := by
  obtain ⟨y, hy, hexact⟩ := h.exists_double
  rw [hy, Option.bind_some, Number.toInt?, Binary.toInt?_of_toRat_none hexact, Option.filter_none]

end Scalar

namespace Schema

/-- **Floating-point numbers are rounded once.** Each rational has one nearest integer, the even one of
two. A number that stands for the rational becomes that integer of a kind if it is in the range of the
kind, and else the conversion fails; so it does for what stands for no rational. -/
theorem float_conversion {x : Scalar} {q? : Option ℚ} (hx : x.Floating q?) (s : Schema) (h : Heap)
    (k : IntegerKind) :
    (∀ q, q? = some q → ∃ n, NearestEven q n ∧ (∀ m, NearestEven q m → m = n) ∧
      (k.least ≤ n ∧ n ≤ k.greatest → ∃ i : Integer, i.kind = k ∧ i.val = n ∧
        s.convert h (.scalar x) (.integer k) = .ok (.scalar (.integer i))) ∧
      (¬(k.least ≤ n ∧ n ≤ k.greatest) → s.convert h (.scalar x) (.integer k) =
        .error (.fault (.conversion x.detailed (Kind.integer k).name)))) ∧
    (q? = none → s.convert h (.scalar x) (.integer k) =
      .error (.fault (.conversion x.detailed (Kind.integer k).name))) := by
  constructor
  · rintro q rfl
    obtain ⟨n, hnear, hn⟩ := hx.toInt?
    refine ⟨n, hnear, fun m hm => hnear.unique hm, fun hrange => ?_, fun hrange => ?_⟩
    · -- the guard for 128 bits lets every integer of the kind pass
      rw [Option.filter_some, if_pos (isWideInteger_of_mem_range hrange.1 hrange.2)] at hn
      exact convert_of_mem_range hn hrange.1 hrange.2
    · refine convert_of_not_mem_range fun m hm => ?_
      obtain ⟨hm, -⟩ := Option.filter_eq_some_iff.mp (hn.symm.trans hm)
      exact Option.some.inj hm ▸ hrange
  · rintro rfl
    refine convert_of_not_mem_range fun m hm => ?_
    cases hx.toInt?_none.symm.trans hm

/-- Half a step below the least integer of eight bits is rounded to that integer, which is even. -/
theorem float_conversion_tie : ∃ x : Double,
    (Scalar.double x).Floating (some (-257 / 2)) ∧ ∃ i : Integer, i.kind = .i8 ∧ i.val = -128 ∧
      convert {} {} (.scalar (.double x)) (.integer .i8) = .ok (.scalar (.integer i)) := by
  have hexact : (⟨true, 0x4060100000000000, by decide⟩ : Double).toRat? = some (-257 / 2) := by
    norm_num [Binary.toRat?, Binary.exponentField, Binary.significand, Binary.fractionField,
      Binary.lastPlace, Binary.Format.bias, Binary.Format.double]
  have hx : (Scalar.double ⟨true, 0x4060100000000000, by decide⟩).Floating (some (-257 / 2)) :=
    hexact ▸ .double _
  refine ⟨_, hx, ?_⟩
  obtain ⟨n, -, hunique, hin, -⟩ := (float_conversion hx {} {} .i8).1 _ rfl
  have htie : NearestEven (-257 / 2) (-128) :=
    .of_dist_eq_half (by norm_num [abs_of_neg]) (by decide)
  obtain rfl := hunique _ htie
  exact hin (by decide)

end Schema

end RecordForge
