import RecordForge.Text.Hex

/-!
# Identifiers of 128 bits

Written as 32 hexadecimal digits in small letters, in groups of 8, 4, 4, 4 and 12 with hyphens
between them. Read in that form, without the hyphens, between braces, or after `urn:uuid:`. The case
of a letter never matters when an identifier is read.
-/

namespace RecordForge

/-- An identifier of 128 bits. -/
structure Guid where
  bits : BitVec 128
deriving DecidableEq

namespace Guid

/-- The identifier without a bit set. -/
def empty : Guid := ⟨0⟩

/-- The lengths of the groups of digits. -/
def groups : List Nat := [8, 4, 4, 4, 12]

def hexDigits (g : Guid) : List Char :=
  let ds := Nat.toDigits 16 g.bits.toNat
  List.replicate (32 - ds.length) '0' ++ ds

/-- Cuts a list into pieces of given lengths. -/
def cut {α : Type} : List Nat → List α → List (List α)
  | [], _ => []
  | n :: ns, xs => xs.take n :: cut ns (xs.drop n)

/-- The digits with hyphens between the groups. -/
def hyphenated (g : Guid) : List Char :=
  ['-'].intercalate (cut groups g.hexDigits)

def ofDigits? (cs : List Char) : Option Guid :=
  if cs.length = 32 then
    (Text.ofHex? cs).map fun n => ⟨BitVec.ofNat 128 n⟩
  else none

/-- Takes off the hyphens between groups of the given lengths, if they stand there. -/
def joinGroups? : List Nat → List Char → Option (List Char)
  | [], cs => if cs.isEmpty then some [] else none
  | [n], cs => if cs.length = n then some cs else none
  | n :: ns, cs => match cs.drop n with
    | '-' :: rest => (joinGroups? ns rest).map (cs.take n ++ ·)
    | _ => none

/-- Reads the form with hyphens. -/
def ofHyphenated? (cs : List Char) : Option Guid :=
  (joinGroups? groups cs).bind ofDigits?

/-- The text after a beginning given in small letters, which may stand in letters of any case. -/
def after? : List Char → List Char → Option (List Char)
  | [], cs => some cs
  | _ :: _, [] => none
  | p :: ps, c :: cs => if p = c.toLower then after? ps cs else none

/-- The text between two braces. -/
def unbraced? (cs : List Char) : Option (List Char) :=
  match cs, cs.getLast? with
  | '\x7b' :: rest, some '\x7d' => some rest.dropLast
  | _, _ => none

/-- Reads an identifier in any of its forms. -/
def read? (cs : List Char) : Option Guid :=
  (ofDigits? cs).orElse fun _ =>
    (ofHyphenated? cs).orElse fun _ =>
      ((unbraced? cs).bind ofHyphenated?).orElse fun _ =>
        (after? "urn:uuid:".toList cs).bind ofHyphenated?

end Guid

end RecordForge
