import RecordForge.Proofs.Text.Digits
import RecordForge.Scalar

/-!
# Moments as text

How a moment is written is a relation (`Moment.Writing`): the year has four digits or a sign, the other
numbers have two digits, a leap second is second 60, and the fraction of a second has up to nine digits.
Every such text is read as the moment that it is a writing of (`Moment.readWith_of_writing`). The text
that a moment is given is one of them, unless the moment lies within a leap second that does not end a
minute, for which there is none (`Moment.writing_toChars_iff`): it is written like the second that follows.

The lemmas follow the parts of the text: each is read off in front of whatever follows it, as long as
that does not begin with a digit.
-/

namespace RecordForge.Moment

open RecordForge.Decimal RecordForge.Text

variable {rest : List Char} {most n : Nat} {year : Int}

/-! ## Numbers -/

/-- Digits are read off in front of what is no digit. -/
theorem readDigits_append {ds : List Char} (hds : IsDigits ds) (hmost : ds.length ≤ most)
    (hrest : NoDigit rest) : readDigits most (ds ++ rest) = some (ds, rest) := by
  have htake : ((ds ++ rest).take most).takeWhile Char.isDigit = ds := by
    rw [List.take_append, List.take_of_length_le hmost]
    refine takeWhile_digits hds.2 fun c cs he => ?_
    cases rest with
    | nil => simp at he
    | cons d rest =>
      cases hlength : most - ds.length with
      | zero => simp [hlength] at he
      | succ k =>
        rw [hlength, List.take_succ_cons] at he
        exact (List.cons.inj he).1 ▸ hrest d rest rfl
  simp only [readDigits, htake, List.isEmpty_iff, hds.1, if_false, List.drop_left]

theorem expect_cons (c : Char) (cs : List Char) : expect c (c :: cs) = some ((), cs) := if_pos rfl

/-- How a number is written within a date or a time: with two digits. -/
inductive WritesPair : Nat → List Char → Prop
  | digits {ds : List Char} (hds : IsDigits ds) (hlength : ds.length = 2) : WritesPair (ofDigits ds) ds

theorem WritesPair.isDigits {cs : List Char} (h : WritesPair n cs) : IsDigits cs := by
  cases h with
  | digits hds _ => exact hds

theorem readNumber_of_writes {cs : List Char} (h : WritesPair n cs) (hrest : NoDigit rest) :
    readNumber 2 (cs ++ rest) = some (n, rest) := by
  cases h with
  | digits hds hlength =>
    rw [readNumber, dropBlanks_digits hds, readDigits_append hds (Nat.le_of_eq hlength) hrest]
    rfl

theorem writesPair_padded (hn : n < 100) : WritesPair n (padded 2 n) := by
  have hpair := WritesPair.digits (isDigits_padded 2 n) (length_padded_of_lt (by decide) hn)
  rwa [ofDigits_padded] at hpair

/-! ## Dates -/

/-- How a year is written: with four digits from 0 to 9999, else with a sign and at least four. -/
inductive WritesYear : Int → List Char → Prop
  | plain {ds : List Char} (hds : IsDigits ds) (hlength : ds.length = 4) : WritesYear (ofDigits ds) ds
  | plus {ds : List Char} (hds : IsDigits ds) (hlarge : 9999 < ofDigits ds) :
      WritesYear (ofDigits ds) ('+' :: ds)
  | minus {ds : List Char} (hds : IsDigits ds) (hlength : 4 ≤ ds.length) (hpos : 0 < ofDigits ds) :
      WritesYear (-(ofDigits ds : Int)) ('-' :: ds)

theorem readYear_minus (ds : List Char) : readYear ('-' :: ds) =
    (readDigits ds.length ds).map fun (n, rest) => (-(ofDigits n : Int), rest) := rfl

theorem readYear_plus (ds : List Char) : readYear ('+' :: ds) =
    (readDigits ds.length ds).map fun (n, rest) => ((ofDigits n : Int), rest) := rfl

/-- A digit is no sign. -/
theorem readYear_digits {ds : List Char} (hds : IsDigits ds) : readYear (ds ++ rest) =
    (readDigits 4 (ds ++ rest)).map fun (n, rest) => ((ofDigits n : Int), rest) := by
  have hsign : ∀ {c : Char} {cs : List Char}, ds ++ rest = c :: cs → c.isDigit = true := by
    intro c cs he
    obtain ⟨d, ds', rfl⟩ := List.exists_cons_of_ne_nil hds.1
    exact (List.cons.inj he).1 ▸ hds.2 d List.mem_cons_self
  rw [readYear, dropBlanks_digits hds]
  split
  · next he => cases hsign he
  · next he => cases hsign he
  · rfl

theorem readYear_of_writes {cs : List Char} (h : WritesYear year cs) (hrest : NoDigit rest) :
    readYear (cs ++ rest) = some (year, rest) := by
  -- after a sign, all digits that there are belong to the year
  have hsigned : ∀ {ds : List Char}, IsDigits ds →
      readDigits (ds ++ rest).length (ds ++ rest) = some (ds, rest) := fun hds =>
    readDigits_append hds (by simp) hrest
  cases h with
  | plain hds hlength =>
    rw [readYear_digits hds, readDigits_append hds (Nat.le_of_eq hlength) hrest, Option.map_some]
  | plus hds hlarge => rw [List.cons_append, readYear_plus, hsigned hds, Option.map_some]
  | minus hds hlength hpos => rw [List.cons_append, readYear_minus, hsigned hds, Option.map_some]

theorem writesYear_yearText (year : Int) : WritesYear year (yearText year) := by
  have hds := isDigits_padded 4 year.natAbs
  have hlength : 4 ≤ (padded 4 year.natAbs).length := by
    rw [length_padded]
    exact Nat.le_max_left _ _
  have hvalue := ofDigits_padded 4 year.natAbs
  unfold yearText
  split
  · next hneg =>
    have hyear := WritesYear.minus hds hlength (by omega)
    rwa [hvalue, show -(year.natAbs : Int) = year by omega] at hyear
  · next hneg =>
    have hcast : (year.natAbs : Int) = year := by omega
    split
    · next hlarge =>
      have hyear := WritesYear.plus hds (by omega)
      rwa [hvalue, hcast] at hyear
    · next hlarge =>
      have hyear := WritesYear.plain hds (length_padded_of_lt (by decide) (by omega))
      rwa [hvalue, hcast] at hyear

/-- How a date is written: three numbers with hyphens between them. -/
inductive WritesDate : Int × Nat × Nat → List Char → Prop
  | parts {year : Int} {month day : Nat} {ys ms ds : List Char} (hyear : WritesYear year ys)
      (hmonth : WritesPair month ms) (hday : WritesPair day ds) :
      WritesDate (year, month, day) (ys ++ '-' :: (ms ++ '-' :: ds))

theorem readDate_of_writes {date : Int × Nat × Nat} {cs : List Char} (h : WritesDate date cs)
    (hrest : NoDigit rest) : readDate (cs ++ rest) = some (date, rest) := by
  cases h with
  | parts hyear hmonth hday =>
    have hhyphen : ∀ cs, NoDigit ('-' :: cs) := fun _ => noDigit_cons rfl
    simp only [List.append_assoc, List.cons_append, readDate, readYear_of_writes hyear (hhyphen _),
      expect_cons, readNumber_of_writes hmonth (hhyphen _), readNumber_of_writes hday hrest, bind,
      Option.bind, pure]

/-! ## Times of day -/

/-- How the nanoseconds after a second are written: not at all if there are none, or with up to nine
digits after a point. Digits that are left out are zeros. -/
inductive WritesFraction : Nat → List Char → Prop
  | none : WritesFraction 0 []
  | point {ds : List Char} (hds : IsDigits ds) (hlength : ds.length ≤ 9) :
      WritesFraction (ofDigits ds * 10 ^ (9 - ds.length)) ('.' :: ds)

/-- A fraction of a second begins with no digit. -/
theorem WritesFraction.noDigit {cs : List Char} (h : WritesFraction n cs) : NoDigit cs := by
  cases h with
  | none => exact noDigit_nil
  | point => exact noDigit_cons rfl

theorem readFraction_of_writes {cs : List Char} (h : WritesFraction n cs) :
    readFraction cs = some (n, []) := by
  cases h with
  | none => rfl
  | @point ds hds hlength =>
    have hread := readDigits_append hds hlength noDigit_nil
    rw [List.append_nil] at hread
    rw [readFraction, hread]
    rfl

/-- Less than a second is written after a second. -/
theorem WritesFraction.lt {cs : List Char} (h : WritesFraction n cs) : n < 1000000000 := by
  cases h with
  | none => decide
  | @point ds hds hlength =>
    have hdigits : ofDigits ds < 10 ^ ds.length := ofDigits_lt hds
    calc ofDigits ds * 10 ^ (9 - ds.length)
        < 10 ^ ds.length * 10 ^ (9 - ds.length) := Nat.mul_lt_mul_of_pos_right hdigits (by positivity)
      _ = 1000000000 := by rw [← Nat.pow_add, Nat.add_sub_cancel' hlength]

/-- As many digits as are shown, shifted to nanoseconds. -/
theorem writesFraction_padded {width : Nat} (hwidth : 0 < width) (hmost : width ≤ 9)
    (hn : n < 10 ^ width) : WritesFraction (n * 10 ^ (9 - width)) ('.' :: padded width n) := by
  have hlength := length_padded_of_lt hwidth hn
  have hfraction := WritesFraction.point (isDigits_padded width n) (hlength.trans_le hmost)
  rwa [ofDigits_padded, hlength] at hfraction

theorem writesFraction_fractionText {nanos : Nat} (hn : nanos < 1000000000) :
    WritesFraction nanos (fractionText nanos) := by
  -- what is not shown is zero
  have hshown : ∀ {width scale : Nat}, 0 < width → width ≤ 9 → 10 ^ (9 - width) = scale →
      nanos / scale < 10 ^ width → nanos % scale = 0 →
      WritesFraction nanos ('.' :: padded width (nanos / scale)) := by
    intro width scale hwidth hmost hscale hlt hzero
    have hfraction := writesFraction_padded hwidth hmost hlt
    rwa [hscale, Nat.div_mul_cancel (Nat.dvd_of_mod_eq_zero hzero)] at hfraction
  unfold fractionText
  split
  · next hzero => exact hzero ▸ .none
  · split
    · next hmilli => exact hshown (by decide) (by decide) rfl (by omega) hmilli
    · split
      · next hmicro => exact hshown (by decide) (by decide) rfl (by omega) hmicro
      · have hnano : WritesFraction nanos ('.' :: padded 9 (nanos / 1)) :=
          hshown (by decide) (by decide) rfl (by omega) (by omega)
        rwa [Nat.div_one] at hnano

/-- How a second and its nanoseconds are written. A leap second is second 60, which there is after second
59 only. -/
inductive WritesSecond : Nat → Nat → List Char → Prop
  | usual {second nanos : Nat} {ss fs : List Char} (hlt : second < 60) (hsecond : WritesPair second ss)
      (hnanos : WritesFraction nanos fs) : WritesSecond second nanos (ss ++ fs)
  | leap {nanos : Nat} {ss fs : List Char} (hsecond : WritesPair 60 ss)
      (hnanos : WritesFraction nanos fs) : WritesSecond 59 (nanos + 1000000000) (ss ++ fs)

/-- How a time of day is written: with colons between hour, minute and second. -/
inductive WritesTime : Nat × Nat × Nat × Nat → List Char → Prop
  | parts {hour minute second nanos : Nat} {hs ms ss : List Char} (hhour : WritesPair hour hs)
      (hminute : WritesPair minute ms) (hsecond : WritesSecond second nanos ss) :
      WritesTime (hour, minute, second, nanos) (hs ++ ':' :: (ms ++ ':' :: ss))

/-- A time of day is read, a leap second too. -/
theorem readTime_of_writes {time : Nat × Nat × Nat × Nat} {cs : List Char} (h : WritesTime time cs) :
    readTime cs = some (time, []) := by
  have hcolon : ∀ cs, NoDigit (':' :: cs) := fun _ => noDigit_cons rfl
  cases h with
  | parts hhour hminute hsecond =>
    cases hsecond with
    | usual hlt hsecond hnanos =>
      simp only [readTime, readNumber_of_writes hhour (hcolon _), expect_cons,
        readNumber_of_writes hminute (hcolon _), readNumber_of_writes hsecond hnanos.noDigit,
        readFraction_of_writes hnanos, bind, Option.bind, if_neg (Nat.ne_of_lt hlt), pure]
    | leap hsecond hnanos =>
      simp only [readTime, readNumber_of_writes hhour (hcolon _), expect_cons,
        readNumber_of_writes hminute (hcolon _), readNumber_of_writes hsecond hnanos.noDigit,
        readFraction_of_writes hnanos, bind, Option.bind, if_true, pure]

/-- What is shown of a second is a writing of it, unless it is a leap second after another second than
the last one of a minute. -/
theorem writesSecond_shownSecond {second nanos : Nat} (hsecond : second < 60)
    (hnanos : nanos < 2000000000) (hleap : nanos < 1000000000 ∨ second = 59) :
    WritesSecond second nanos (padded 2 (shownSecond second nanos).1 ++
      fractionText (shownSecond second nanos).2) := by
  unfold shownSecond
  split
  · next hlarge =>
    obtain rfl : second = 59 := by omega
    have hfraction : WritesFraction (nanos - 1000000000) (fractionText (nanos - 1000000000)) :=
      writesFraction_fractionText (by omega)
    have hleap := WritesSecond.leap (writesPair_padded (n := 60) (by decide)) hfraction
    rwa [Nat.sub_add_cancel hlarge] at hleap
  · exact .usual hsecond (writesPair_padded (by omega)) (writesFraction_fractionText (by omega))

/-- What is written of a second is no leap second, or one that ends a minute. -/
theorem WritesSecond.lt_or_eq {second nanos : Nat} {cs : List Char} (h : WritesSecond second nanos cs) :
    nanos < 1000000000 ∨ second = 59 := by
  cases h with
  | usual _ _ hnanos => exact .inl hnanos.lt
  | leap => exact .inr rfl

/-! ## Moments -/

/-- How a moment is written: its date, a blank, and its time of day. -/
inductive Writing (m : Moment) : List Char → Prop
  | parts {ds ts : List Char} (hdate : WritesDate (m.year, m.month, m.day) ds)
      (htime : WritesTime (m.hour, m.minute, m.second, m.nanos) ts) : Writing m (ds ++ ' ' :: ts)

theorem isBlank_of_writesDate {date : Int × Nat × Nat} {cs : List Char} (h : WritesDate date cs) :
    cs ≠ [] ∧ ∀ c ∈ cs, isBlank c = false := by
  cases h with
  | parts hyear hmonth hday =>
    refine ⟨by simp, ?_⟩
    simp only [List.forall_mem_append, List.forall_mem_cons]
    refine ⟨?_, rfl, hmonth.isDigits.isBlank, rfl, hday.isDigits.isBlank⟩
    cases hyear with
    | plain hds _ => exact hds.isBlank
    | plus hds _ => exact List.forall_mem_cons.mpr ⟨rfl, hds.isBlank⟩
    | minus hds _ _ => exact List.forall_mem_cons.mpr ⟨rfl, hds.isBlank⟩

theorem isBlank_of_writesTime {time : Nat × Nat × Nat × Nat} {cs : List Char} (h : WritesTime time cs) :
    cs ≠ [] ∧ ∀ c ∈ cs, isBlank c = false := by
  have hfraction : ∀ {n cs}, WritesFraction n cs → ∀ c ∈ cs, isBlank c = false := by
    intro n cs h
    cases h with
    | none => exact List.forall_mem_nil _
    | point hds _ => exact List.forall_mem_cons.mpr ⟨rfl, hds.isBlank⟩
  cases h with
  | parts hhour hminute hsecond =>
    refine ⟨by simp, ?_⟩
    simp only [List.forall_mem_append, List.forall_mem_cons]
    refine ⟨hhour.isDigits.isBlank, rfl, hminute.isDigits.isBlank, rfl, ?_⟩
    cases hsecond with
    | usual _ hsecond hnanos =>
      exact List.forall_mem_append.mpr ⟨hsecond.isDigits.isBlank, hfraction hnanos⟩
    | leap hsecond hnanos =>
      exact List.forall_mem_append.mpr ⟨hsecond.isDigits.isBlank, hfraction hnanos⟩

/-- The only blank of a moment is between its date and its time. -/
theorem Writing.trim {m : Moment} {cs : List Char} (h : m.Writing cs) : trim cs = cs := by
  cases h with
  | @parts ds ts hdate htime =>
    obtain ⟨hdateNe, hdateBlank⟩ := isBlank_of_writesDate hdate
    obtain ⟨htimeNe, htimeBlank⟩ := isBlank_of_writesTime htime
    show Text.trim (ds ++ ([' '] ++ ts)) = ds ++ ([' '] ++ ts)
    exact trim_append hdateNe htimeNe hdateBlank htimeBlank

/-- **A moment is read back from each of its writings.** -/
theorem readWith_of_writing {m : Moment} {cs : List Char} (h : m.Writing cs) :
    readWith (fun cs => some ((), dropBlanks cs)) cs = some m := by
  cases h with
  | @parts ds ts hdate htime =>
    obtain ⟨htimeNe, htimeBlank⟩ := isBlank_of_writesTime htime
    have hgap : dropBlanks (' ' :: ts) = ts := by
      have hword : dropBlanks (ts ++ []) = ts ++ [] := dropBlanks_append htimeNe htimeBlank
      rwa [List.append_nil] at hword
    rw [readWith]
    simp only [readDate_of_writes hdate (noDigit_cons (c := ' ') rfl), hgap, readTime_of_writes htime,
      bind, Option.bind, List.isEmpty_nil, if_true, ofParts?_self]

/-- A date has at most twelve months, and none has more than 31 days. -/
theorem lt_of_isDate {month day : Nat} (h : isDate year month day = true) :
    month < 100 ∧ day < 100 := by
  simp only [isDate, Bool.and_eq_true, decide_eq_true_eq] at h
  obtain ⟨⟨-, hday⟩, hmost⟩ := h
  unfold daysIn at hmost
  split at hmost
  all_goals first | omega | split at hmost <;> omega

/-- A moment is given a writing of it, unless it lies within a leap second that does not end a minute:
such a moment has none. -/
theorem writing_toChars_iff (m : Moment) :
    m.Writing m.toChars ↔ m.nanos < 1000000000 ∨ m.second = 59 := by
  constructor
  · intro h
    generalize m.toChars = cs at h
    cases h with
    | parts _ htime =>
      cases htime with
      | parts _ _ hsecond => exact hsecond.lt_or_eq
  · intro hleap
    obtain ⟨hmonth, hday⟩ := lt_of_isDate m.date_ok
    have htime := m.time_ok
    simp only [isTime, Bool.and_eq_true, decide_eq_true_eq] at htime
    obtain ⟨⟨⟨hhour, hminute⟩, hsecond⟩, hnanos⟩ := htime
    have hwriting := Writing.parts (m := m)
      (.parts (writesYear_yearText m.year) (writesPair_padded hmonth) (writesPair_padded hday))
      (.parts (writesPair_padded (by omega)) (writesPair_padded (by omega))
        (writesSecond_shownSecond hsecond hnanos hleap))
    simpa [toChars] using hwriting

/-- A moment within a leap second that does not end a minute is written like one of the next second. -/
theorem toChars_eq_of_leap {m m' : Moment} (hleap : 1000000000 ≤ m.nanos)
    (hdate : m'.year = m.year ∧ m'.month = m.month ∧ m'.day = m.day)
    (htime : m'.hour = m.hour ∧ m'.minute = m.minute ∧ m'.second = m.second + 1 ∧
      m'.nanos + 1000000000 = m.nanos) : m'.toChars = m.toChars := by
  obtain ⟨hyear, hmonth, hday⟩ := hdate
  obtain ⟨hhour, hminute, hsecond, hnanos⟩ := htime
  have hshown : shownSecond m'.second m'.nanos = shownSecond m.second m.nanos := by
    have hbound := m.time_ok
    simp only [isTime, Bool.and_eq_true, decide_eq_true_eq] at hbound
    rw [shownSecond, shownSecond, if_pos hleap, if_neg (by omega), hsecond, ← hnanos,
      Nat.add_sub_cancel]
  rw [toChars, toChars, hshown, hyear, hmonth, hday, hhour, hminute]

end RecordForge.Moment
