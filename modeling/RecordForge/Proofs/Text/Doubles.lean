import RecordForge.Proofs.Text.Binaries

/-!
# Floating-point numbers that survive as text

A number of 64 bits that is not NaN is converted to text, and the text is converted back to a number with
the same bits, unless it was negative zero (`Schema.double_round_trip`). The text may read as an integer,
and is then converted as the nearest number to that integer; an integer has no negative zero, so that sign
is lost, though the reader of floating-point numbers keeps it (`Binary.read?_toText`).
-/

namespace RecordForge

/-- The text of a number stands for that number, except for the sign of zero. -/
theorem Scalar.numberOfText?_double {x : Double} (hx : x.isNaN = false) :
    ∃ n, numberOfText? x.toText = some n ∧ n.toDouble = if x.isZero then .zero else x := by
  have hdouble : 2 ≤ Binary.Format.double.exponent := by decide
  rw [numberOfText?, Binary.trim_toText hdouble hx]
  cases hwide : (Decimal.readInt? x.toText.toList).filter isWideInteger with
  | some i =>
    -- digits only, within the integers of 128 bits
    obtain ⟨hi, -⟩ := Option.filter_eq_some_iff.mp hwide
    refine ⟨.integer i, rfl, ?_⟩
    cases hzero : x.isZero with
    | true =>
      obtain rfl := Option.some.inj (hi.symm.trans (Binary.readInt?_of_isZero hdouble hzero))
      exact Binary.ofInt_zero
    | false => exact Binary.ofInt_of_readInt? hdouble hx hzero hi
  | none =>
    have hzero : x.isZero = false := by
      by_contra hzero
      rw [Bool.not_eq_false] at hzero
      rw [Binary.readInt?_of_isZero hdouble hzero] at hwide
      cases hwide
    refine ⟨.float x, by rw [Binary.read?_toText hdouble hx]; rfl, ?_⟩
    rw [hzero]
    rfl

namespace Schema

/-- **Floating-point numbers survive as text, except for the sign of zero.** A number of 64 bits that is
not NaN is converted to its text. Converted back, the text is the number itself, with the same bits; both
zeros become positive zero. -/
theorem double_round_trip {x : Double} (hx : x.isNaN = false) (s : Schema) (h : Heap) :
    s.convert h (.scalar (.double x)) .text = .ok (.scalar (.text x.toText)) ∧
      s.convert h (.scalar (.text x.toText)) .double =
        .ok (.scalar (.double (if x.isZero then .zero else x))) := by
  constructor
  · exact convert_eq_ok_iff.mpr rfl
  · obtain ⟨n, hn, hdouble⟩ := Scalar.numberOfText?_double hx
    have hkind : (Scalar.text x.toText).kind ≠ .double := Kind.noConfusion
    rw [convert_eq_ok_iff, Value.convert?, if_neg hkind, Scalar.convert?, Scalar.number?, hn,
      Option.map_some, hdouble]
    rfl

/-- The least number above zero, and negative infinity. -/
theorem double_round_trip_extremes :
    (⟨false, 1, by decide⟩ : Double).isNaN = false ∧ (Binary.infinite true : Double).isNaN = false ∧
      (∃ s, convert {} {} (.scalar (.double ⟨false, 1, by decide⟩)) .text = .ok (.scalar (.text s)) ∧
        convert {} {} (.scalar (.text s)) .double =
          .ok (.scalar (.double ⟨false, 1, by decide⟩))) ∧
      convert {} {} (.scalar (.text "-inf")) .double =
        .ok (.scalar (.double (Binary.infinite true))) :=
  ⟨by decide, by decide, ⟨_, double_round_trip (x := ⟨false, 1, by decide⟩) (by decide) {} {}⟩,
    (double_round_trip (x := Binary.infinite true) (by decide) {} {}).2⟩

/-- Negative zero is converted to a text that is converted back to positive zero. -/
theorem double_round_trip_negative_zero :
    let x : Double := ⟨true, 0, by decide⟩
    x.isNaN = false ∧ x.bits = 0x8000000000000000 ∧
      convert {} {} (.scalar (.double x)) .text = .ok (.scalar (.text "-0")) ∧
      convert {} {} (.scalar (.text "-0")) .double = .ok (.scalar (.double .zero)) ∧
      (Binary.zero : Double).bits ≠ x.bits := by
  have htext : (⟨true, 0, by decide⟩ : Double).toText = "-0" :=
    String.toList_inj.mp (Binary.toText_of_isZero (by decide) rfl)
  refine ⟨by decide, by decide, ?_, ?_, by decide⟩
  · rw [convert_eq_ok_iff, ← htext]
    rfl
  · rw [convert_eq_ok_iff, ← Binary.ofInt_zero]
    rfl

end Schema

end RecordForge
