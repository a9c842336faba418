import RecordForge.Binary.Text
import RecordForge.Proofs.Scalar.Nearest
import RecordForge.Proofs.Text.Digits

/-!
# Binary numbers as decimal text

A number that is not NaN is read back from its text (`Binary.read?_toText`). The text of a magnitude is
digits with a point among them or without one (`Decimal.Positional`); which digits is decided by a search,
and all that matters here is that it ends at digits that read back (`Binary.nearest_shortest`). The reader
takes some shortcuts for numbers far out of range; they change nothing (`Binary.ofScientific_eq`).
-/

namespace RecordForge

/-! ## Positional notation -/

namespace Decimal

/-- A text is digits, possibly with a point and more digits behind it, that stand for `n / 10 ^ p`. -/
inductive Positional : List Char → Nat → Nat → Prop
  | whole {ds : List Char} (hds : IsDigits ds) : Positional ds (ofDigits ds) 0
  | point {ds part : List Char} (hds : IsDigits ds) (hpart : IsDigits part) :
      Positional (ds ++ '.' :: part) (ofDigits (ds ++ part)) part.length

variable {cs : List Char} {n p : Nat}

theorem Positional.exists_digit (h : Positional cs n p) : ∃ c ds, cs = c :: ds ∧ c.isDigit = true := by
  cases h with
  | whole hds =>
    obtain ⟨c, ds, rfl⟩ := List.exists_cons_of_ne_nil hds.1
    exact ⟨c, ds, rfl, hds.isDigit_head⟩
  | point hds hpart =>
    obtain ⟨c, ds, rfl⟩ := List.exists_cons_of_ne_nil hds.1
    exact ⟨c, ds ++ _, rfl, hds.isDigit_head⟩

theorem Positional.isBlank (h : Positional cs n p) : ∀ c ∈ cs, Text.isBlank c = false := by
  cases h with
  | whole hds => exact hds.isBlank
  | point hds hpart =>
    rw [List.forall_mem_append, List.forall_mem_cons]
    exact ⟨hds.isBlank, rfl, hpart.isBlank⟩

/-- It reads as a natural only if there is no point. -/
theorem Positional.readNat? {k : Nat} (h : Positional cs n p) (hk : readNat? cs = some k) :
    p = 0 ∧ n = k := by
  obtain ⟨hcs, rfl⟩ := readNat?_eq_some_iff.mp hk
  cases h with
  | whole hds => exact ⟨rfl, ofDigits_eq_placeValue cs⟩
  | point hds hpart => cases hcs.2 '.' (List.mem_append_right _ List.mem_cons_self)

/-- Digits are those up to the zeros at the end, and these zeros. -/
theorem exists_eq_append_zeros (ds : List Char) :
    ∃ k, ds = (ds.reverse.dropWhile (· == '0')).reverse ++ List.replicate k '0' := by
  have hzeros : ∀ c ∈ ds.reverse.takeWhile (· == '0'), c = '0' := fun c hc =>
    eq_of_beq (List.all_eq_true.mp List.all_takeWhile c hc)
  refine ⟨(ds.reverse.takeWhile (· == '0')).length, ?_⟩
  rw [← List.reverse_replicate, ← List.eq_replicate_of_mem hzeros, ← List.reverse_append,
    List.takeWhile_append_dropWhile, List.reverse_reverse]

/-- Digits are split as they are written: those before the last places, those at the places, and the zeros
at the end, which are not written. -/
theorem exists_split {ds whole part : List Char} {places : Nat} (hlength : places ≤ ds.length)
    (hwhole : ds.take (ds.length - places) = whole)
    (hpart : ((ds.drop (ds.length - places)).reverse.dropWhile (· == '0')).reverse = part) :
    ∃ k, ds = whole ++ part ++ List.replicate k '0' ∧ part.length + k = places := by
  obtain ⟨k, hk⟩ := exists_eq_append_zeros (ds.drop (ds.length - places))
  rw [hpart] at hk
  refine ⟨k, ?_, ?_⟩
  · rw [List.append_assoc, ← hk, ← hwhole, List.take_append_drop]
  · have hlast := congrArg List.length hk
    rw [List.length_drop, List.length_append, List.length_replicate] at hlast
    omega

end Decimal

namespace Binary

open Decimal

variable {f : Format} {cs : List Char} {code m n p up down : Nat}

/-! ## Writing -/

/-- A number is written in positional notation. -/
theorem exists_positional (m places : Nat) :
    ∃ n p, Positional (positional m places) n p ∧ n * 10 ^ places = m * 10 ^ p := by
  obtain ⟨ds, hds⟩ : ∃ ds, padded (places + 1) m = ds := ⟨_, rfl⟩
  obtain ⟨whole, hwhole⟩ : ∃ whole, ds.take (ds.length - places) = whole := ⟨_, rfl⟩
  obtain ⟨part, hpart⟩ : ∃ part,
      ((ds.drop (ds.length - places)).reverse.dropWhile (· == '0')).reverse = part := ⟨_, rfl⟩
  have htext : positional m places = if part.isEmpty then whole else whole ++ '.' :: part := by
    rw [positional, hds, hwhole, hpart]
  have hdigits : IsDigits ds := hds ▸ isDigits_padded _ _
  have hlength : places < ds.length := by
    rw [← hds, length_padded]
    omega
  obtain ⟨k, hsplit, hplaces⟩ := exists_split hlength.le hwhole hpart
  have hvalue : ofDigits (whole ++ part) * 10 ^ k = m := by
    rw [← ofDigits_append_zeros, ← hsplit, ← hds, ofDigits_padded]
  have hwholeDigits : IsDigits whole := by
    refine ⟨?_, fun c hc => hdigits.2 c (List.mem_of_mem_take (hwhole ▸ hc))⟩
    rw [← hwhole, Ne, List.take_eq_nil_iff]
    exact fun hnil => hnil.elim (by omega) hdigits.1
  by_cases hempty : part = []
  · subst hempty
    rw [List.append_nil] at hvalue
    rw [List.length_nil, Nat.zero_add] at hplaces
    refine ⟨ofDigits whole, 0, htext ▸ .whole hwholeDigits, ?_⟩
    rw [← hvalue, hplaces, Nat.pow_zero, Nat.mul_one]
  · have hpoint : positional m places = whole ++ '.' :: part := by
      rw [htext, if_neg (by simpa using hempty)]
    have hpartDigits : IsDigits part := ⟨hempty, fun c hc =>
      hdigits.2 c (hsplit ▸ List.mem_append_left _ (List.mem_append_right _ hc))⟩
    refine ⟨ofDigits (whole ++ part), part.length, hpoint ▸ .point hwholeDigits hpartDigits, ?_⟩
    rw [← hvalue, ← hplaces, Nat.pow_add]
    ring

/-- The search ends at digits that read back: if nothing shorter does, the whole expansion does. -/
theorem nearest_shortest (hf : 2 ≤ f.exponent) (hcode : code < f.infinity) :
    f.nearest ((shortest f code).1 * 10 ^ (shortest f code).2) (5 ^ f.places) = code := by
  simp only [shortest]
  generalize hfound : List.findSome? _ _ = found
  cases found with
  | none =>
    rw [Option.getD_none, Nat.pow_zero, Nat.mul_one]
    exact Format.nearest_units hf hcode (Nat.pow_pos (by decide))
  | some hit =>
    obtain ⟨kept, -, hkept⟩ := List.exists_of_findSome?_eq_some hfound
    obtain ⟨m, hm, rfl⟩ := Option.map_eq_some_iff.mp hkept
    have hback : readsBack f code ((digits (expansion f code)).length - (kept + 1)) m = true :=
      List.find?_some hm
    exact eq_of_beq hback

/-- The text of a finite magnitude stands for a quotient to which the magnitude is nearest. -/
theorem exists_positional_magnitude (hf : 2 ≤ f.exponent) (hcode : code < f.infinity) :
    ∃ n p, Positional (magnitude f code) n p ∧ f.nearest (n * 2 ^ f.places) (10 ^ p) = code := by
  have hread := nearest_shortest hf hcode
  obtain ⟨m, drop, hshortest⟩ : ∃ m drop, shortest f code = (m, drop) := ⟨_, _, rfl⟩
  rw [hshortest] at hread
  obtain ⟨n, p, hpos, hvalue⟩ :=
    exists_positional (m * 10 ^ (drop - f.places)) (f.places - drop)
  have htext : magnitude f code = positional (m * 10 ^ (drop - f.places)) (f.places - drop) := by
    rw [magnitude, hshortest]
    rfl
  refine ⟨n, p, htext ▸ hpos, ?_⟩
  rw [← hread]
  refine Format.nearest_congr (Nat.pow_pos (by decide)) (Nat.pow_pos (by decide)) ?_
  have hplaces : f.places = f.places - drop + min f.places drop := by omega
  have hdrop : drop = drop - f.places + min f.places drop := by omega
  calc n * 2 ^ f.places * 5 ^ f.places = n * 10 ^ f.places := by rw [Nat.mul_assoc, ← Nat.mul_pow]
    _ = n * 10 ^ (f.places - drop) * 10 ^ min f.places drop := by
      conv_lhs => rw [hplaces, Nat.pow_add, ← Nat.mul_assoc]
    _ = m * 10 ^ (drop - f.places) * 10 ^ min f.places drop * 10 ^ p := by
      rw [hvalue]
      ring
    _ = m * 10 ^ drop * 10 ^ p := by
      conv_rhs => rw [hdrop, Nat.pow_add, ← Nat.mul_assoc]

/-- Zero has one digit. -/
theorem magnitude_zero : magnitude f 0 = ['0'] := by
  have hexpansion : expansion f 0 = 0 := by simp [expansion, Format.units]
  have hback : readsBack f 0 0 0 = true := by
    rw [readsBack, Nat.zero_mul, Format.nearest_eq_zero (Nat.pow_pos (by decide)), beq_self_eq_true]
  have hshortest : shortest f 0 = (0, 0) := by
    have hdigits : digits 0 = ['0'] := rfl
    simp [shortest, neighbours, hexpansion, hdigits, hback]
  have hpadded : padded (f.places + 1) 0 = List.replicate (f.places + 1) '0' := by
    rw [List.replicate_succ']
    rfl
  rw [magnitude, hshortest]
  simp [positional, hpadded]

/-! ## Reading -/

/-- A number with very many digits before its point goes to infinity. -/
theorem nearest_of_large (hm : m ≠ 0)
    (h : down + (2 ^ f.exponent + f.fraction) < (digits m).length + up) :
    f.nearest (m * 10 ^ (up - down) * 2 ^ f.places) (10 ^ (down - up)) = f.infinity := by
  refine Format.nearest_eq_infinity (Nat.pow_pos (by decide)) ?_
  generalize 2 ^ f.exponent + f.fraction = reach at h ⊢
  have hmost : reach + (down - up) ≤ (digits m).length - 1 + (up - down) := by omega
  calc 2 ^ reach * 10 ^ (down - up)
    _ ≤ 10 ^ reach * 10 ^ (down - up) :=
      Nat.mul_le_mul_right _ (Nat.pow_le_pow_left (by decide) reach)
    _ = 10 ^ (reach + (down - up)) := (Nat.pow_add ..).symm
    _ ≤ 10 ^ ((digits m).length - 1 + (up - down)) := Nat.pow_le_pow_right (by decide) hmost
    _ = 10 ^ ((digits m).length - 1) * 10 ^ (up - down) := Nat.pow_add ..
    _ ≤ m * 10 ^ (up - down) := Nat.mul_le_mul_right _ (pow_length_digits_le hm)
    _ ≤ m * 10 ^ (up - down) * 2 ^ f.places := Nat.le_mul_of_pos_right _ (Nat.two_pow_pos _)

/-- A number with very many zeros behind its point goes to zero. -/
theorem nearest_of_small (h : (digits m).length + up + (2 ^ f.exponent + f.fraction) < down) :
    f.nearest (m * 10 ^ (up - down) * 2 ^ f.places) (10 ^ (down - up)) = 0 := by
  have hplaces : f.places + 1 ≤ 2 ^ f.exponent + f.fraction := by
    have : 2 ^ (f.exponent - 1) ≤ 2 ^ f.exponent := Nat.pow_le_pow_right (by decide) (by omega)
    have : 0 < 2 ^ f.exponent := Nat.two_pow_pos _
    simp only [Format.places, Nat.pow_eq]
    omega
  generalize 2 ^ f.exponent + f.fraction = reach at h hplaces
  refine Format.nearest_eq_zero ?_
  rw [show up - down = 0 by omega, Nat.pow_zero, Nat.mul_one]
  calc 2 * (m * 2 ^ f.places) = m * 2 ^ (f.places + 1) := by ring
    _ < 10 ^ (digits m).length * 2 ^ (f.places + 1) :=
      Nat.mul_lt_mul_of_pos_right (lt_pow_length_digits m) (Nat.two_pow_pos _)
    _ ≤ 10 ^ (digits m).length * 10 ^ (f.places + 1) :=
      Nat.mul_le_mul_left _ (Nat.pow_le_pow_left (by decide) _)
    _ = 10 ^ ((digits m).length + (f.places + 1)) := (Nat.pow_add ..).symm
    _ ≤ 10 ^ (down - up) := Nat.pow_le_pow_right (by decide) (by omega)

/-- The shortcuts for numbers far out of range change nothing. -/
theorem ofScientific_eq : ofScientific f m up down =
    f.nearest (m * 10 ^ (up - down) * 2 ^ f.places) (10 ^ (down - up)) := by
  simp only [ofScientific, Nat.pow_eq]
  split
  · next hzero =>
    rw [Format.nearest_eq_zero]
    simp [hzero]
  · next hm =>
    split
    · next hlarge => exact (nearest_of_large hm hlarge).symm
    · split
      · next hsmall => exact (nearest_of_small hsmall).symm
      · rfl

/-- Positional notation is read as the magnitude nearest to what it stands for. -/
theorem readMagnitude?_positional (h : Positional cs n p) :
    readMagnitude? f cs = some (f.nearest (n * 2 ^ f.places) (10 ^ p)) := by
  have hread : readMagnitude? f cs = some (ofScientific f n 0 p) := by
    cases h with
    | whole hds =>
      have htake := takeWhile_digits hds.2 noDigit_nil
      have hdrop := dropWhile_digits hds.2 noDigit_nil
      rw [List.append_nil] at htake hdrop
      simp [readMagnitude?, htake, hdrop, hds.1, readExponent?]
    | @point ds part hds hpart =>
      have hrest : NoDigit ('.' :: part) := noDigit_cons rfl
      have htake := takeWhile_digits hpart.2 noDigit_nil
      have hdrop := dropWhile_digits hpart.2 noDigit_nil
      rw [List.append_nil] at htake hdrop
      simp [readMagnitude?, takeWhile_digits hds.2 hrest, dropWhile_digits hds.2 hrest, htake, hdrop,
        hds.1, readExponent?]
  rw [hread, ofScientific_eq, Nat.zero_sub, Nat.pow_zero, Nat.mul_one, Nat.sub_zero]

/-! ## Signs -/

/-- A text begins with no sign. -/
def Unsigned (cs : List Char) : Prop := ∀ ds, cs ≠ '-' :: ds ∧ cs ≠ '+' :: ds

theorem unsigned_positional (h : Positional cs n p) : Unsigned cs := by
  obtain ⟨c, ds, rfl, hc⟩ := h.exists_digit
  intro rest
  constructor
  all_goals
    intro he
    rw [(List.cons.inj he).1] at hc
    cases hc

/-- The reader of binary numbers takes off the sign and reads the rest. -/
theorem read?_signed (hcs : Unsigned cs) (negative : Bool) :
    read? f (if negative then '-' :: cs else cs) =
      ((readMagnitude? f cs).orElse fun _ => readWord? f cs).map (ofCode negative) := by
  cases negative with
  | true => rfl
  | false =>
    rw [if_neg Bool.false_ne_true, read?]
    · exact fun ds => (hcs ds).1
    · exact fun ds => (hcs ds).2

/-- So does the reader of integers. -/
theorem readInt?_signed (hcs : Unsigned cs) (negative : Bool) :
    readInt? (if negative then '-' :: cs else cs) =
      (readNat? cs).map fun n : Nat => if negative then -(n : Int) else n := by
  cases negative with
  | true => exact readInt?_minus cs
  | false => exact readInt?_unsigned (fun ds => (hcs ds).1) fun ds => (hcs ds).2

/-! ## Numbers -/

section

variable {x : Binary f}

/-- The text of a number without its sign. -/
def unsignedText (x : Binary f) : List Char :=
  if x.isInfinite then ['i', 'n', 'f'] else magnitude f x.code

theorem toText_eq (hx : x.isNaN = false) : x.toText.toList =
    if x.negative then '-' :: x.unsignedText else x.unsignedText := by
  rw [toText, if_neg (by simp [hx]), String.toList_ofList]
  rfl

theorem ofCode_code (x : Binary f) : ofCode x.negative x.code = x := by
  simp [ofCode, Nat.mod_eq_of_lt x.code_lt]

/-- A number that is not NaN is finite or infinite, and its text is positional or the word for that. -/
theorem unsignedText_cases (hf : 2 ≤ f.exponent) (hx : x.isNaN = false) :
    (x.code = f.infinity ∧ x.unsignedText = ['i', 'n', 'f']) ∨
      ∃ n p, Positional x.unsignedText n p ∧ f.nearest (n * 2 ^ f.places) (10 ^ p) = x.code := by
  have hle : x.code ≤ f.infinity := Nat.le_of_not_lt (of_decide_eq_false hx)
  rcases Nat.lt_or_eq_of_le hle with hlt | heq
  · rw [unsignedText, if_neg (by simp [isInfinite]; omega)]
    exact .inr (exists_positional_magnitude hf hlt)
  · exact .inl ⟨heq, if_pos (by simp [isInfinite, heq])⟩

theorem unsigned_unsignedText (hf : 2 ≤ f.exponent) (hx : x.isNaN = false) :
    Unsigned x.unsignedText := by
  rcases unsignedText_cases hf hx with ⟨-, htext⟩ | ⟨n, p, hpos, -⟩
  · rw [htext]
    exact fun ds => ⟨by simp, by simp⟩
  · exact unsigned_positional hpos

/-- **A number that is not NaN is read back from its text**, with its sign, even if it is zero or
infinite. -/
theorem read?_toText (hf : 2 ≤ f.exponent) (hx : x.isNaN = false) :
    read? f x.toText.toList = some x := by
  have hread : ((readMagnitude? f x.unsignedText).orElse fun _ => readWord? f x.unsignedText) =
      some x.code := by
    rcases unsignedText_cases hf hx with ⟨hcode, htext⟩ | ⟨n, p, hpos, hnearest⟩
    · rw [htext, hcode]
      rfl
    · rw [readMagnitude?_positional hpos, hnearest]
      rfl
  rw [toText_eq hx, read?_signed (unsigned_unsignedText hf hx), hread, Option.map_some, ofCode_code]

/-- If the text of a number that is not zero reads as an integer, the number is the one nearest to that
integer. -/
theorem ofInt_of_readInt? (hf : 2 ≤ f.exponent) (hx : x.isNaN = false) (hzero : x.isZero = false)
    {i : Int} (hi : readInt? x.toText.toList = some i) : ofInt i = x := by
  rw [toText_eq hx, readInt?_signed (unsigned_unsignedText hf hx), Option.map_eq_some_iff] at hi
  obtain ⟨k, hk, rfl⟩ := hi
  rcases unsignedText_cases hf hx with ⟨-, htext⟩ | ⟨n, p, hpos, hnearest⟩
  · rw [htext] at hk
    cases hk
  obtain ⟨rfl, rfl⟩ := hpos.readNat? hk
  have hn : 0 < n := by
    refine Nat.pos_of_ne_zero fun hn => ?_
    rw [hn, Nat.zero_mul, Format.nearest_eq_zero (by decide)] at hnearest
    simp [isZero, ← hnearest] at hzero
  have hsign : decide ((if x.negative then -(n : Int) else n) < 0) = x.negative := by
    cases x.negative <;> simp [hn]
  have habs : (if x.negative then -(n : Int) else n).natAbs = n := by
    cases x.negative <;> simp
  rw [ofInt, ofQuotient, hsign, habs, ← Nat.pow_zero 10]
  exact hnearest ▸ ofCode_code x

/-- The text of zero has one digit behind its sign. -/
theorem toText_of_isZero (hf : 2 ≤ f.exponent) (hx : x.isZero = true) :
    x.toText.toList = if x.negative then ['-', '0'] else ['0'] := by
  have hcode : x.code = 0 := eq_of_beq hx
  have hinfinite : x.isInfinite = false := by
    have hfour : 2 ^ 2 ≤ 2 ^ f.exponent := Nat.pow_le_pow_right two_pos hf
    have hexponent : 0 < 2 ^ f.exponent - 1 := by omega
    have hinfinity : 0 < f.infinity := Nat.mul_pos hexponent (Nat.two_pow_pos _)
    simp only [isInfinite, hcode, beq_eq_false_iff_ne]
    omega
  rw [toText_eq (by simp [isNaN, hcode]), unsignedText, hinfinite, hcode, magnitude_zero]
  rfl

/-- It reads as the integer zero, whatever the sign. -/
theorem readInt?_of_isZero (hf : 2 ≤ f.exponent) (hx : x.isZero = true) :
    readInt? x.toText.toList = some 0 := by
  rw [toText_of_isZero hf hx]
  cases x.negative <;> rfl

/-- An integer has no negative zero. -/
theorem ofInt_zero : (ofInt 0 : Binary f) = zero := by
  rw [ofInt, ofQuotient, Int.natAbs_zero, Nat.zero_mul, Format.nearest_eq_zero (by decide)]
  rfl

/-- There are no blanks in the text of a number. -/
theorem trim_toText (hf : 2 ≤ f.exponent) (hx : x.isNaN = false) :
    Text.trim x.toText.toList = x.toText.toList := by
  refine Text.trim_of_no_blanks ?_
  have hblank : ∀ c ∈ x.unsignedText, Text.isBlank c = false := by
    rcases unsignedText_cases hf hx with ⟨-, htext⟩ | ⟨n, p, hpos, -⟩
    · simp only [htext, List.forall_mem_cons]
      exact ⟨rfl, rfl, rfl, List.forall_mem_nil _⟩
    · exact hpos.isBlank
  rw [toText_eq hx]
  split
  · exact List.forall_mem_cons.mpr ⟨rfl, hblank⟩
  · exact hblank

end

end Binary

end RecordForge
