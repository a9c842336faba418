import RecordForge.Proofs.Schema.Conversion
import RecordForge.Proofs.Text.Guids
import RecordForge.Proofs.Text.Moments

/-!
# Scalars that survive as text

A scalar of a discrete kind is converted to text, and the text is converted back to the same scalar
(`Schema.text_round_trip`). Each kind has a reader of its own, so there is one lemma for each of them;
the integers share one reader and differ only in the range that is checked afterwards.

For moments and identifiers this is so with every library that reads what is written in the documented
formats (`TextLibrary.ReadsWritings`), for each value that it writes in them (`TextLibrary.Writes`). The
library that runs does so for all of them but the moments within a leap second that does not end a minute
(`TextLibrary.writes_standard_iff`): they have no writing of their own.
-/

namespace RecordForge

/-- The kinds whose values are told by their text: all except the floating-point numbers, whose text may
stand for an integer, and text itself. -/
def Kind.isDiscrete : Kind → Bool
  | bool | char | integer _ | moment | guid => true
  | single | double | text => false

/-! ## Libraries -/

namespace TextLibrary

/-- A library reads moments and identifiers in their documented formats. -/
structure ReadsWritings (lib : TextLibrary) : Prop where
  moment : ∀ {m : Moment} {cs : List Char}, m.Writing cs → lib.readMoment? .spaced cs = some m
  guid : ∀ {g : Guid} {cs : List Char}, g.Writing cs → lib.readGuid? cs = some g

/-- A library writes a scalar in its documented format, if the scalar is left to it. -/
def Writes (lib : TextLibrary) : Scalar → Prop
  | .moment m => m.Writing (lib.writeMoment m)
  | .guid g => g.Writing (lib.writeGuid g)
  | _ => True

theorem readsWritings_standard : standard.ReadsWritings where
  moment := Moment.readWith_of_writing
  guid := Guid.read?_of_writing

/-- The library that runs writes every scalar in its format, unless it is a moment within a leap second
that does not end a minute. -/
theorem writes_standard_iff {x : Scalar} :
    standard.Writes x ↔ ∀ m, x = .moment m → m.nanos < 1000000000 ∨ m.second = 59 := by
  constructor
  · rintro h m rfl
    exact m.writing_toChars_iff.mp h
  · intro h
    cases x with
    | moment m => exact m.writing_toChars_iff.mpr (h m rfl)
    | guid g => exact g.writing_hyphenated
    | _ => trivial

end TextLibrary

/-! ## Scalars -/

namespace Scalar

variable {lib : TextLibrary}

/-- Truth values are written with a capital letter and read in any case of letters. -/
theorem boolOfText?_toText (b : Bool) : boolOfText? ((bool b).toText lib) = some b := by
  cases b with
  | false => rw [toText]; decide
  | true => rw [toText]; decide

theorem charOfText?_toText (c : Char) : charOfText? ((char c).toText lib) = some c := by
  rw [toText, charOfText?, String.toList_ofList]

/-- The text of an integer is read as that integer: no kind has integers that are too wide. -/
theorem numberOfText?_toText (i : Integer) :
    numberOfText? ((integer i).toText lib) = some (.integer i.val) := by
  have hwide : isWideInteger i.val = true := isWideInteger_of_mem_range i.least_le i.le_greatest
  rw [toText, numberOfText?, String.toList_ofList,
    Text.trim_of_no_blanks (Decimal.isBlank_signed i.val), Decimal.readInt?_signed,
    Option.filter_some, if_pos hwide]

/-- The first of the forms that are tried is the one that is written. -/
theorem moment?_toText {m : Moment} (hread : lib.ReadsWritings) (hwrite : lib.Writes (.moment m)) :
    lib.moment? (Text.trim ((moment m).toText lib).toList) = some m := by
  have hwriting : m.Writing (lib.writeMoment m) := hwrite
  rw [toText, String.toList_ofList, hwriting.trim, TextLibrary.moment?, hread.moment hwriting]
  rfl

theorem readGuid?_toText {g : Guid} (hread : lib.ReadsWritings) (hwrite : lib.Writes (.guid g)) :
    lib.readGuid? (Text.trim ((guid g).toText lib).toList) = some g := by
  have hwriting : g.Writing (lib.writeGuid g) := hwrite
  rw [toText, String.toList_ofList, hwriting.trim, hread.guid hwriting]

/-- The text of a scalar of a discrete kind is converted back. -/
theorem convert?_toText {x : Scalar} (hread : lib.ReadsWritings) (hx : x.kind.isDiscrete = true)
    (hwrite : lib.Writes x) : (text (x.toText lib)).convert? x.kind lib = some x := by
  cases x with
  | bool b => rw [kind, convert?, boolOfText?_toText, Option.map_some]
  | char c => rw [kind, convert?, charOfText?_toText, Option.map_some]
  | integer i =>
    rw [kind, convert?, number?, numberOfText?_toText, Option.bind_some, Number.toInt?,
      Option.bind_some, Integer.ofInt?_val, Option.map_some]
  | moment m => rw [kind, convert?, moment?_toText hread hwrite, Option.map_some]
  | guid g => rw [kind, convert?, readGuid?_toText hread hwrite, Option.map_some]
  | single _ | double _ | text _ => cases hx

end Scalar

namespace Schema

theorem convert_text_eq_ok {lib : TextLibrary} {s : Schema} {h : Heap} {t : String} {k : Kind}
    {x : Scalar} (hk : .text ≠ k) (hx : (Scalar.text t).convert? k lib = some x) :
    s.convert h (.scalar (.text t)) k lib = .ok (.scalar x) := by
  have hvalue : (Value.scalar (.text t)).convert? k lib = some (.scalar x) := by
    rw [Value.convert?, if_neg (show (Scalar.text t).kind ≠ k from hk), hx, Option.map_some]
  exact convert_eq_ok_iff.mpr hvalue

/-- A moment within a leap second that does not end a minute comes back as one of the next second, whose
text is the same. -/
theorem convert_text_of_leap {m m' : Moment} (hleap : 1000000000 ≤ m.nanos)
    (hdate : m'.year = m.year ∧ m'.month = m.month ∧ m'.day = m.day)
    (htime : m'.hour = m.hour ∧ m'.minute = m.minute ∧ m'.second = m.second + 1 ∧
      m'.nanos + 1000000000 = m.nanos) (s : Schema) (h : Heap) :
    s.convert h (.scalar (.text (Scalar.moment m).toText)) .moment = .ok (.scalar (.moment m')) := by
  have htext : (Scalar.moment m').toText = (Scalar.moment m).toText :=
    congrArg String.ofList (Moment.toChars_eq_of_leap hleap hdate htime)
  have hbound : m'.nanos < 1000000000 := by
    have hok := m.time_ok
    simp only [Moment.isTime, Bool.and_eq_true, decide_eq_true_eq] at hok
    omega
  have hwrite : TextLibrary.standard.Writes (.moment m') := m'.writing_toChars_iff.mpr (.inl hbound)
  have hback := Scalar.convert?_toText TextLibrary.readsWritings_standard (x := .moment m') rfl hwrite
  rw [← htext]
  exact convert_text_eq_ok (by decide) hback

end Schema

end RecordForge
