import Mathlib.Data.Nat.Digits.Defs
import RecordForge.Proofs.Schema.Conversion

/-!
# Integers in every representation

Truth values, characters, integers of each kind, and texts that are signed decimals all stand for an
integer (`Scalar.Denotes`). Converting to a kind of integers keeps that integer if it is within the range
of the kind, and fails otherwise; so it makes no difference whether a value is converted to one kind first
and to another then (`Schema.integer_conversion`).
-/

namespace RecordForge

/-! ## Decimals -/

namespace Decimal

/-- The natural that digits stand for, each for its value at its place. -/
def placeValue (ds : List Char) : Nat :=
  Nat.ofDigits 10 (ds.map fun c => c.toNat - '0'.toNat).reverse

/-- Digits and nothing else, but at least one. -/
def IsDigits (ds : List Char) : Prop := ds ≠ [] ∧ ∀ c ∈ ds, c.isDigit = true

/-- A text is a decimal integer with an optional sign. -/
inductive Numeral : List Char → Int → Prop
  | unsigned {ds : List Char} (hds : IsDigits ds) : Numeral ds (placeValue ds)
  | plus {ds : List Char} (hds : IsDigits ds) : Numeral ('+' :: ds) (placeValue ds)
  | minus {ds : List Char} (hds : IsDigits ds) : Numeral ('-' :: ds) (-placeValue ds)

theorem ofDigits_eq_placeValue (ds : List Char) : ofDigits ds = placeValue ds := by
  rw [ofDigits, placeValue]
  induction ds with
  | nil => rfl
  | cons c ds ih =>
    rw [Nat.ofDigitChars_cons, Nat.ofDigitChars_eq_ofDigitChars_zero, ih, List.map_cons,
      List.reverse_cons, Nat.ofDigits_append, List.length_reverse, List.length_map,
      Nat.ofDigits_singleton, Nat.mul_zero, Nat.zero_add, Nat.add_comm]

/-- Digits are read as the natural that they stand for, and nothing else is read. -/
theorem readNat?_eq_some_iff {cs : List Char} {n : Nat} :
    readNat? cs = some n ↔ IsDigits cs ∧ n = placeValue cs := by
  rw [readNat?, IsDigits, ← ofDigits_eq_placeValue]
  cases cs with
  | nil => simp
  | cons c cs =>
    rw [← List.all_eq_true]
    cases (c :: cs).all Char.isDigit with
    | true => simp [eq_comm]
    | false => simp

/-- Digits begin with no sign. -/
theorem IsDigits.isDigit_head {c : Char} {cs : List Char} (h : IsDigits (c :: cs)) :
    c.isDigit = true := h.2 c List.mem_cons_self

theorem readInt?_minus (cs : List Char) :
    readInt? ('-' :: cs) = (readNat? cs).map fun n : Nat => -(n : Int) := by
  rw [readInt?]
  cases readNat? cs <;> rfl

/-- Without a sign, the digits are read as a natural. -/
theorem readInt?_unsigned {cs : List Char} (hminus : ∀ ds, cs ≠ '-' :: ds)
    (hplus : ∀ ds, cs ≠ '+' :: ds) : readInt? cs = (readNat? cs).map Int.ofNat := by
  rw [readInt?.eq_def]
  split
  · exact absurd rfl (hminus _)
  · exact absurd rfl (hplus _)
  · rfl

theorem map_readNat?_eq_some_iff {cs : List Char} {f : Nat → Int} {n : Int} :
    (readNat? cs).map f = some n ↔ IsDigits cs ∧ n = f (placeValue cs) := by
  rw [Option.map_eq_some_iff]
  constructor
  · rintro ⟨m, hm, rfl⟩
    obtain ⟨hcs, rfl⟩ := readNat?_eq_some_iff.mp hm
    exact ⟨hcs, rfl⟩
  · rintro ⟨hcs, rfl⟩
    exact ⟨placeValue cs, readNat?_eq_some_iff.mpr ⟨hcs, rfl⟩, rfl⟩

/-- A signed decimal is read as the integer that it stands for, and nothing else is read. -/
theorem readInt?_eq_some_iff {cs : List Char} {n : Int} : readInt? cs = some n ↔ Numeral cs n := by
  constructor
  · intro h
    by_cases hminus : ∃ ds, cs = '-' :: ds
    · obtain ⟨ds, rfl⟩ := hminus
      rw [readInt?_minus] at h
      obtain ⟨hds, rfl⟩ := map_readNat?_eq_some_iff.mp h
      exact .minus hds
    by_cases hplus : ∃ ds, cs = '+' :: ds
    · obtain ⟨ds, rfl⟩ := hplus
      obtain ⟨hds, rfl⟩ := map_readNat?_eq_some_iff.mp h
      exact .plus hds
    rw [readInt?_unsigned (not_exists.mp hminus) (not_exists.mp hplus)] at h
    obtain ⟨hds, rfl⟩ := map_readNat?_eq_some_iff.mp h
    exact .unsigned hds
  · intro h
    cases h with
    | minus hds => exact (readInt?_minus _).trans (map_readNat?_eq_some_iff.mpr ⟨hds, rfl⟩)
    | plus hds => exact map_readNat?_eq_some_iff.mpr ⟨hds, rfl⟩
    | unsigned hds =>
      rw [readInt?_unsigned]
      · exact map_readNat?_eq_some_iff.mpr ⟨hds, rfl⟩
      · rintro ds rfl
        cases hds.isDigit_head
      · rintro ds rfl
        cases hds.isDigit_head

end Decimal

/-! ## Scalars that stand for integers -/

/-- A scalar stands for an integer: 1 and 0 are the truth values, a character is its code point, and a
text is read as a decimal of 128 bits, whatever blanks are around it. -/
inductive Scalar.Denotes : Scalar → Int → Prop
  | bool (b : Bool) : Denotes (.bool b) (if b then 1 else 0)
  | char (c : Char) : Denotes (.char c) c.toNat
  | integer (i : Integer) : Denotes (.integer i) i.val
  | text {s : String} {cs : List Char} {n : Int} (hs : Text.trim s.toList = cs)
      (hn : Decimal.Numeral cs n) (hmin : -2 ^ 127 ≤ n) (hmax : n ≤ 2 ^ 127 - 1) :
      Denotes (.text s) n

/-- An integer is of a kind exactly if it is in the range of the kind. -/
theorem Integer.ofInt?_eq_none_iff {k : IntegerKind} {n : Int} :
    ofInt? k n = none ↔ ¬(k.least ≤ n ∧ n ≤ k.greatest) := by
  rw [← ofInt?_eq_some_iff, not_exists]
  cases ofInt? k n <;> simp

theorem Integer.val_of_ofInt? {k : IntegerKind} {n : Int} {i : Integer} (h : ofInt? k n = some i) :
    i.val = n := by
  rw [ofInt?] at h
  split at h
  · split at h
    · exact Option.some.inj h ▸ rfl
    · cases h
  · cases h

/-- Every integer of a kind has at most 128 bits. -/
theorem isWideInteger_of_mem_range {k : IntegerKind} {n : Int} (hmin : k.least ≤ n)
    (hmax : n ≤ k.greatest) : isWideInteger n = true := by
  rw [isWideInteger, Bool.and_eq_true, decide_eq_true_eq, decide_eq_true_eq]
  cases k <;> simp only [IntegerKind.least, IntegerKind.greatest] at hmin hmax <;> omega

namespace Scalar

variable {x : Scalar} {n : Int}

/-- What stands for an integer is converted as that integer. -/
theorem Denotes.toInt? (h : x.Denotes n) : x.number?.bind Number.toInt? = some n := by
  cases h with
  | bool b => rfl
  | char c => rfl
  | integer i => rfl
  | @text s cs n hs hn hmin hmax =>
    have hwide : isWideInteger n = true := by
      rw [isWideInteger, Bool.and_eq_true, decide_eq_true_eq, decide_eq_true_eq]
      omega
    rw [Scalar.number?, numberOfText?, hs, Decimal.readInt?_eq_some_iff.mpr hn,
      Option.filter_some, if_pos hwide]
    rfl

end Scalar

/-- A scalar becomes an integer of a kind by way of the integer that it is rounded to. -/
theorem Value.convert?_integer (x : Scalar) (k : IntegerKind) : (scalar x).convert? (.integer k) =
    ((x.number?.bind Number.toInt?).bind (Integer.ofInt? k)).map fun i => .scalar (.integer i) := by
  rw [Value.convert?]
  split
  · next hk =>
    -- a value of the kind stays as it is
    cases x with
    | integer i =>
      obtain rfl := Kind.integer.inj hk
      show _ = (Integer.ofInt? i.kind i.val).map _
      rw [Integer.ofInt?_val, Option.map_some]
    | _ => cases hk
  · rw [Scalar.convert?, Option.map_bind, Option.map_bind]
    simp only [Function.comp_def, Option.map_map]

namespace Schema

variable {s : Schema} {h : Heap} {x : Scalar} {n : Int} {k : IntegerKind} {u : Value}

theorem convert_scalar_eq_error {k : Kind} (hx : (Value.scalar x).convert? k = none) :
    s.convert h (.scalar x) k = .error (.fault (.conversion x.detailed k.name)) := by
  rw [convert, hx, detailed, detailedTo]
  rfl

/-- What is rounded to an integer in the range of a kind becomes that integer of the kind. -/
theorem convert_of_mem_range (hx : x.number?.bind Number.toInt? = some n) (hmin : k.least ≤ n)
    (hmax : n ≤ k.greatest) : ∃ i : Integer, i.kind = k ∧ i.val = n ∧
      s.convert h (.scalar x) (.integer k) = .ok (.scalar (.integer i)) := by
  obtain ⟨i, hi⟩ := Integer.ofInt?_eq_some_iff.mpr ⟨hmin, hmax⟩
  refine ⟨i, Integer.kind_of_ofInt? hi, Integer.val_of_ofInt? hi, convert_eq_ok_iff.mpr ?_⟩
  rw [Value.convert?_integer, hx, Option.bind_some, hi, Option.map_some]

/-- What is rounded to no integer in the range of a kind does not become one. -/
theorem convert_of_not_mem_range
    (hx : ∀ n, x.number?.bind Number.toInt? = some n → ¬(k.least ≤ n ∧ n ≤ k.greatest)) :
    s.convert h (.scalar x) (.integer k) =
      .error (.fault (.conversion x.detailed (Kind.integer k).name)) := by
  refine convert_scalar_eq_error ?_
  rw [Value.convert?_integer, Option.map_eq_none_iff, Option.bind_eq_none_iff]
  exact fun n hn => Integer.ofInt?_eq_none_iff.mpr (hx n hn)

/-- What stands for an integer outside the range of a kind does not become one. -/
theorem convert_of_denotes (hx : x.Denotes n) (hn : ¬(k.least ≤ n ∧ n ≤ k.greatest)) :
    s.convert h (.scalar x) (.integer k) =
      .error (.fault (.conversion x.detailed (Kind.integer k).name)) :=
  convert_of_not_mem_range fun _ hm => Option.some.inj (hx.toInt?.symm.trans hm) ▸ hn

/-- What becomes an integer of a kind stands for the same integer. -/
theorem denotes_of_convert (hx : x.Denotes n) (hu : s.convert h (.scalar x) (.integer k) = .ok u) :
    ∃ i : Integer, u = .scalar (.integer i) ∧ (Scalar.integer i).Denotes n := by
  by_cases hn : k.least ≤ n ∧ n ≤ k.greatest
  · obtain ⟨i, -, rfl, hi⟩ := convert_of_mem_range (s := s) (h := h) hx.toInt? hn.1 hn.2
    exact ⟨i, Except.ok.inj (hu.symm.trans hi), .integer i⟩
  · cases hu.symm.trans (convert_of_denotes hx hn)

/-- **Integers are converted exactly.** What stands for an integer becomes that integer of a kind if it is
in the range of the kind, and else the conversion fails. By way of another kind it becomes the same, or
fails for the same reason. -/
theorem integer_conversion {x : Scalar} {n : Int} (hx : x.Denotes n) (s : Schema) (h : Heap) :
    (∀ k : IntegerKind,
      (k.least ≤ n ∧ n ≤ k.greatest → ∃ i : Integer, i.kind = k ∧ i.val = n ∧
        s.convert h (.scalar x) (.integer k) = .ok (.scalar (.integer i))) ∧
      (¬(k.least ≤ n ∧ n ≤ k.greatest) → s.convert h (.scalar x) (.integer k) =
        .error (.fault (.conversion x.detailed (Kind.integer k).name)))) ∧
    ∀ (k₁ k₂ : IntegerKind) (u : Value), s.convert h (.scalar x) (.integer k₁) = .ok u →
      (∃ w, s.convert h u (.integer k₂) = .ok w ∧ s.convert h (.scalar x) (.integer k₂) = .ok w) ∨
      ∃ i : Integer, u = .scalar (.integer i) ∧
        s.convert h u (.integer k₂) =
          .error (.fault (.conversion (Scalar.integer i).detailed (Kind.integer k₂).name)) ∧
        s.convert h (.scalar x) (.integer k₂) =
          .error (.fault (.conversion x.detailed (Kind.integer k₂).name)) := by
  refine ⟨fun k => ⟨fun hn => convert_of_mem_range hx.toInt? hn.1 hn.2, convert_of_denotes hx⟩,
    fun k₁ k₂ u hu => ?_⟩
  obtain ⟨i, rfl, hi⟩ := denotes_of_convert hx hu
  by_cases hn : k₂.least ≤ n ∧ n ≤ k₂.greatest
  · obtain ⟨j, hkind, hval, hj⟩ := convert_of_mem_range (s := s) (h := h) hi.toInt? hn.1 hn.2
    obtain ⟨j', hkind', hval', hj'⟩ := convert_of_mem_range (s := s) (h := h) hx.toInt? hn.1 hn.2
    obtain rfl : j = j' := by
      cases j
      cases j'
      cases hkind.trans hkind'.symm
      cases hval.trans hval'.symm
      rfl
    exact .inl ⟨_, hj, hj'⟩
  · exact .inr ⟨i, rfl, convert_of_denotes hi hn, convert_of_denotes hx hn⟩

/-- A text with blanks, a sign and leading zeros is the greatest integer of eight bits. -/
theorem integer_conversion_text :
    (Scalar.text " +0255\t").Denotes 255 ∧
      ∃ i : Integer, i.kind = .u8 ∧ i.val = 255 ∧
        convert {} {} (.scalar (.text " +0255\t")) (.integer .u8) = .ok (.scalar (.integer i)) := by
  have hdigits : Decimal.IsDigits ['0', '2', '5', '5'] := by
    refine ⟨List.cons_ne_nil _ _, fun c hc => ?_⟩
    exact List.all_eq_true.mp (show ['0', '2', '5', '5'].all Char.isDigit = true from rfl) c hc
  have hdenotes : (Scalar.text " +0255\t").Denotes 255 :=
    .text (by decide) (.plus hdigits) (by decide) (by decide)
  exact ⟨hdenotes, ((integer_conversion hdenotes {} {}).1 .u8).1 (by decide)⟩

end Schema

end RecordForge
