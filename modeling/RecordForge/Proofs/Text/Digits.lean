import RecordForge.Proofs.Scalar.Integers
import RecordForge.Text.Blank

/-!
# Digits within a text

What the readers and the printers of numbers have in common. A row of digits stands for a natural; zeros
in front of it change nothing (`Decimal.ofDigits_padded`), and zeros behind it shift it
(`Decimal.ofDigits_append_zeros`). A reader takes the digits up to the first character that is none
(`Decimal.takeWhile_digits`), and a text of digits and signs has no blanks to trim
(`Text.trim_of_no_blanks`).
-/

namespace RecordForge

/-! ## Blanks -/

namespace Text

/-- No blank of a word is dropped. -/
theorem dropBlanks_append {word rest : List Char} (hne : word ≠ [])
    (hword : ∀ c ∈ word, isBlank c = false) : dropBlanks (word ++ rest) = word ++ rest := by
  obtain ⟨c, cs, rfl⟩ := List.exists_cons_of_ne_nil hne
  rw [List.cons_append, dropBlanks,
    List.dropWhile_cons_of_neg (by simp [hword c List.mem_cons_self])]

/-- A text that begins and ends with words is left as it is. -/
theorem trim_append {first middle last : List Char} (hfirst : first ≠ [])
    (hlast : last ≠ []) (hf : ∀ c ∈ first, isBlank c = false) (hl : ∀ c ∈ last, isBlank c = false) :
    trim (first ++ (middle ++ last)) = first ++ (middle ++ last) := by
  have hreverse : (first ++ (middle ++ last)).reverse =
      last.reverse ++ (first ++ middle).reverse := by simp
  rw [trim, dropBlanks_append hfirst hf, hreverse,
    dropBlanks_append (List.reverse_ne_nil_iff.mpr hlast) fun c hc => hl c (List.mem_reverse.mp hc),
    ← hreverse, List.reverse_reverse]

/-- Trimming leaves a text without blanks as it is. -/
theorem trim_of_no_blanks {cs : List Char} (h : ∀ c ∈ cs, isBlank c = false) : trim cs = cs := by
  cases hcs : cs with
  | nil => rfl
  | cons c ds =>
    have hne : cs ≠ [] := hcs ▸ List.cons_ne_nil c ds
    have hreverse : ∀ c ∈ cs.reverse, isBlank c = false := fun c hc => h c (List.mem_reverse.mp hc)
    have hfront : dropBlanks (cs ++ []) = cs ++ [] := dropBlanks_append hne h
    have hback : dropBlanks (cs.reverse ++ []) = cs.reverse ++ [] :=
      dropBlanks_append (List.reverse_ne_nil_iff.mpr hne) hreverse
    rw [List.append_nil] at hfront hback
    rw [← hcs, trim, hfront, hback, List.reverse_reverse]

end Text

namespace Decimal

open Text

/-! ## Digits among other characters -/

/-- A digit by its code point. -/
theorem isDigit_iff {c : Char} : c.isDigit = true ↔ 48 ≤ c.toNat ∧ c.toNat ≤ 57 := by
  rw [Char.isDigit, Bool.and_eq_true, decide_eq_true_eq, decide_eq_true_eq]
  rfl

theorem isBlank_of_isDigit {c : Char} (h : c.isDigit = true) : isBlank c = false := by
  have hc := isDigit_iff.mp h
  simp only [isBlank, Bool.or_eq_false_iff, Bool.and_eq_false_iff, decide_eq_false_iff_not,
    beq_eq_false_iff_ne]
  omega

theorem IsDigits.isBlank {ds : List Char} (hds : IsDigits ds) : ∀ c ∈ ds, isBlank c = false :=
  fun c hc => isBlank_of_isDigit (hds.2 c hc)

/-- Digits are not dropped. -/
theorem dropBlanks_digits {ds rest : List Char} (hds : IsDigits ds) :
    dropBlanks (ds ++ rest) = ds ++ rest :=
  dropBlanks_append hds.1 hds.isBlank

/-- A text does not begin with a digit. -/
def NoDigit (cs : List Char) : Prop := ∀ c ds, cs = c :: ds → c.isDigit = false

theorem noDigit_nil : NoDigit [] := fun _ _ h => nomatch h

theorem noDigit_cons {c : Char} {cs : List Char} (h : c.isDigit = false) : NoDigit (c :: cs) := by
  intro d ds he
  obtain ⟨rfl, rfl⟩ := List.cons.inj he
  exact h

/-- Digits are taken up to the first character that is none. -/
theorem takeWhile_digits {ds rest : List Char} (hds : ∀ c ∈ ds, c.isDigit = true)
    (hrest : NoDigit rest) : (ds ++ rest).takeWhile Char.isDigit = ds := by
  rw [List.takeWhile_append_of_pos hds]
  cases rest with
  | nil => exact List.append_nil ds
  | cons c cs =>
    rw [List.takeWhile_cons_of_neg (by simp [hrest c cs rfl]), List.append_nil]

theorem dropWhile_digits {ds rest : List Char} (hds : ∀ c ∈ ds, c.isDigit = true)
    (hrest : NoDigit rest) : (ds ++ rest).dropWhile Char.isDigit = rest := by
  rw [List.dropWhile_append_of_pos hds]
  cases rest with
  | nil => rfl
  | cons c cs => rw [List.dropWhile_cons_of_neg (by simp [hrest c cs rfl])]

/-! ## What digits stand for -/

theorem ofDigits_append (xs ys : List Char) :
    ofDigits (xs ++ ys) = ofDigits xs * 10 ^ ys.length + ofDigits ys := by
  rw [ofDigits, Nat.ofDigitChars_append, Nat.ofDigitChars_eq_ofDigitChars_zero, Nat.mul_comm]
  rfl

/-- What digits stand for is bounded by their number. -/
theorem ofDigits_lt {ds : List Char} (hds : IsDigits ds) : ofDigits ds < 10 ^ ds.length := by
  have hvalue : ∀ d ∈ (ds.map fun c => c.toNat - '0'.toNat).reverse, d < 10 := by
    simp only [List.mem_reverse, List.forall_mem_map]
    intro c hc
    have hrange := isDigit_iff.mp (hds.2 c hc)
    show c.toNat - 48 < 10
    omega
  have hlt := Nat.ofDigits_lt_base_pow_length (by decide) hvalue
  rwa [List.length_reverse, List.length_map, ← placeValue, ← ofDigits_eq_placeValue] at hlt

theorem ofDigits_zeros (k : Nat) : ofDigits (List.replicate k '0') = 0 := by
  induction k with
  | zero => rfl
  | succ k ih =>
    rw [List.replicate_succ', ofDigits_append, ih]
    rfl

/-- Zeros behind digits shift them. -/
theorem ofDigits_append_zeros (ds : List Char) (k : Nat) :
    ofDigits (ds ++ List.replicate k '0') = ofDigits ds * 10 ^ k := by
  rw [ofDigits_append, List.length_replicate, ofDigits_zeros, Nat.add_zero]

/-! ## Padded digits -/

/-- Zeros in front of digits change nothing. -/
theorem ofDigits_padded (width n : Nat) : ofDigits (padded width n) = n := by
  rw [padded, ofDigits_append, ofDigits_zeros, Nat.zero_mul, Nat.zero_add, ofDigits_digits]

theorem isDigits_digits (n : Nat) : IsDigits (digits n) :=
  ⟨digits_ne_nil n, List.all_eq_true.mp (all_isDigit_digits n)⟩

theorem isDigits_padded (width n : Nat) : IsDigits (padded width n) := by
  constructor
  · exact List.append_ne_nil_of_right_ne_nil _ (digits_ne_nil n)
  · intro c hc
    rcases List.mem_append.mp hc with hc | hc
    · rw [List.eq_of_mem_replicate hc]
      rfl
    · exact (isDigits_digits n).2 c hc

theorem length_padded (width n : Nat) :
    (padded width n).length = max width (digits n).length := by
  rw [padded, List.length_append, List.length_replicate]
  omega

/-- A number of few digits is filled up to the width. -/
theorem length_padded_of_lt {width n : Nat} (hwidth : 0 < width) (hn : n < 10 ^ width) :
    (padded width n).length = width := by
  have hlength : (digits n).length ≤ width := (Nat.length_toDigits_le_iff (by decide) hwidth).mpr hn
  rw [length_padded, Nat.max_eq_left hlength]

/-! ## The length of a number -/

theorem lt_pow_length_digits (n : Nat) : n < 10 ^ (digits n).length :=
  (Nat.length_toDigits_le_iff (by decide) Nat.length_toDigits_pos).mp le_rfl

/-- There are no more digits than needed. -/
theorem pow_length_digits_le {n : Nat} (hn : n ≠ 0) : 10 ^ ((digits n).length - 1) ≤ n := by
  by_cases hone : (digits n).length - 1 = 0
  · rw [hone, Nat.pow_zero]
    omega
  · refine Nat.le_of_not_lt fun hlt => ?_
    have hlength : (digits n).length ≤ (digits n).length - 1 :=
      (Nat.length_toDigits_le_iff (by decide) (Nat.pos_of_ne_zero hone)).mpr hlt
    omega

/-! ## Integers -/

/-- An integer is read back from its text. -/
theorem readInt?_signed (n : Int) : readInt? (signed n) = some n := by
  have hvalue : (placeValue (digits n.natAbs) : Int) = n.natAbs := by
    rw [← ofDigits_eq_placeValue, ofDigits_digits]
  rw [readInt?_eq_some_iff, signed]
  split
  · next hneg =>
    have hnumeral := Numeral.minus (isDigits_digits n.natAbs)
    rwa [hvalue, show -(n.natAbs : Int) = n by omega] at hnumeral
  · next hneg =>
    have hnumeral := Numeral.unsigned (isDigits_digits n.natAbs)
    rwa [hvalue, show (n.natAbs : Int) = n by omega] at hnumeral

theorem isBlank_signed (n : Int) : ∀ c ∈ signed n, isBlank c = false := by
  have hdigits : ∀ c ∈ digits n.natAbs, isBlank c = false := (isDigits_digits _).isBlank
  intro c hc
  rw [signed] at hc
  split at hc
  · rcases List.mem_cons.mp hc with rfl | hc
    · rfl
    · exact hdigits c hc
  · exact hdigits c hc

end Decimal

end RecordForge
