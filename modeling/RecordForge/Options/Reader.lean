import RecordForge.Options.Basic
import RecordForge.Text.Hex

/-!
# Documents with options

The text of options is a TOML document, and here is a reader for it. Of all that such a document can hold, options have three
keys on the top level, each at most once: `dump_dir` and `type_name_infix` with a string,
`warn_on_unavailable_create` with a truth value. So only lines of that form, blank lines and
comments are read, and whatever else stands in a document makes it malformed, just as an unknown
key does.

A key is written bare or between quotes. A string is written in one of four ways: between double
quotes, where a backslash begins an escape; between single quotes, where nothing does; and each of
the two with tripled quotes, where it may go over several lines. A line ends with a line feed,
with or without a carriage return before it.
-/

namespace RecordForge.Options

open RecordForge.Text

inductive Setting where
  | text (s : String)
  | flag (b : Bool)
deriving DecidableEq

/-! ## Characters -/

/-- The blanks within a line. -/
def isGap (c : Char) : Bool := c == ' ' || c == '\t'

/-- The characters that may stand for themselves in strings and comments: no control but the tab. -/
def isPlain (c : Char) : Bool := c == '\t' || (' ' ≤ c && c != '\x7f')

/-- The characters of a bare key. -/
def isKeyChar (c : Char) : Bool := c.isAlphanum || c == '_' || c == '-'

/-- The text with a line feed for each end of line; a carriage return without one stays, and
nothing reads it. -/
def unifyLines : List Char → List Char
  | '\r' :: '\n' :: cs => '\n' :: unifyLines cs
  | c :: cs => c :: unifyLines cs
  | [] => []

/-! ## Strings

Each reader starts after the opening quotes and gives the string and the characters after it. -/

def consRead (c : Char) : Option (List Char × List Char) → Option (List Char × List Char) :=
  Option.map fun (s, rest) => (c :: s, rest)

/-- The character that a one-letter escape stands for. -/
def escaped? : Char → Option Char
  | 'b' => some '\x08'
  | 't' => some '\t'
  | 'n' => some '\n'
  | 'f' => some '\x0c'
  | 'r' => some '\r'
  | '"' => some '"'
  | '\\' => some '\\'
  | _ => none

def codeChar? (digits : List Char) : Option Char :=
  (ofHex? digits).bind charOfCode?

/-- Whether only blanks stand before the end of the line. -/
def isLineEnd (cs : List Char) : Bool :=
  (cs.dropWhile isGap).head? == some '\n'

/-- The rest of a string in double quotes on one line. -/
def readBasic : List Char → Option (List Char × List Char)
  | [] => none
  | '"' :: cs => some ([], cs)
  | '\\' :: 'u' :: a :: b :: c :: d :: cs =>
    (codeChar? [a, b, c, d]).bind fun x => consRead x (readBasic cs)
  | '\\' :: 'U' :: a :: b :: c :: d :: e :: f :: g :: h :: cs =>
    (codeChar? [a, b, c, d, e, f, g, h]).bind fun x => consRead x (readBasic cs)
  | '\\' :: c :: cs => (escaped? c).bind fun x => consRead x (readBasic cs)
  | c :: cs => if isPlain c && c != '\\' then consRead c (readBasic cs) else none

/-- The rest of a string in single quotes on one line. -/
def readLiteral : List Char → Option (List Char × List Char)
  | [] => none
  | '\'' :: cs => some ([], cs)
  | c :: cs => if isPlain c then consRead c (readLiteral cs) else none

/-- The rest of a string in tripled double quotes. One or two quotes stand for themselves, also
right before the closing ones. A backslash at the end of a line takes away the blanks and ends of
lines up to the next other character; `skip` says that this is going on. -/
def readBasicLines (skip : Bool) : List Char → Option (List Char × List Char)
  | [] => none
  | '"' :: '"' :: '"' :: '"' :: '"' :: cs => some (['"', '"'], cs)
  | '"' :: '"' :: '"' :: '"' :: cs => some (['"'], cs)
  | '"' :: '"' :: '"' :: cs => some ([], cs)
  | '\\' :: 'u' :: a :: b :: c :: d :: cs =>
    (codeChar? [a, b, c, d]).bind fun x => consRead x (readBasicLines false cs)
  | '\\' :: 'U' :: a :: b :: c :: d :: e :: f :: g :: h :: cs =>
    (codeChar? [a, b, c, d, e, f, g, h]).bind fun x => consRead x (readBasicLines false cs)
  | '\\' :: c :: cs =>
    if isLineEnd (c :: cs) then readBasicLines true cs
    else (escaped? c).bind fun x => consRead x (readBasicLines false cs)
  | c :: cs =>
    if skip && (isGap c || c == '\n') then readBasicLines true cs
    else if (isPlain c && c != '\\') || c == '\n' then consRead c (readBasicLines false cs)
    else none

/-- The rest of a string in tripled single quotes. -/
def readLiteralLines : List Char → Option (List Char × List Char)
  | [] => none
  | '\'' :: '\'' :: '\'' :: '\'' :: '\'' :: cs => some (['\'', '\''], cs)
  | '\'' :: '\'' :: '\'' :: '\'' :: cs => some (['\''], cs)
  | '\'' :: '\'' :: '\'' :: cs => some ([], cs)
  | c :: cs => if isPlain c || c == '\n' then consRead c (readLiteralLines cs) else none

def dropLineEnd : List Char → List Char
  | '\n' :: cs => cs
  | cs => cs

def readLineString : List Char → Option (List Char × List Char)
  | '"' :: cs => readBasic cs
  | '\'' :: cs => readLiteral cs
  | _ => none

/-- Reads a string in any of its forms. -/
def readString : List Char → Option (List Char × List Char)
  | '"' :: '"' :: '"' :: cs => readBasicLines false (dropLineEnd cs)
  | '\'' :: '\'' :: '\'' :: cs => readLiteralLines (dropLineEnd cs)
  | cs => readLineString cs

/-! ## Lines -/

def readKey (cs : List Char) : Option (List Char × List Char) :=
  (readLineString cs).or
    (if (cs.takeWhile isKeyChar).isEmpty then none
      else some (cs.takeWhile isKeyChar, cs.dropWhile isKeyChar))

def readSetting (cs : List Char) : Option (Setting × List Char) :=
  match cs with
  | 't' :: 'r' :: 'u' :: 'e' :: rest => some (.flag true, rest)
  | 'f' :: 'a' :: 'l' :: 's' :: 'e' :: rest => some (.flag false, rest)
  | _ => (readString cs).map fun (s, rest) => (.text (String.ofList s), rest)

/-- Takes a comment off, if there is one; it must be of plain characters. -/
def skipComment (cs : List Char) : List Char :=
  match cs with
  | '#' :: rest => rest.dropWhile isPlain
  | _ => cs

/-- What is left of a line after its blanks and its comment: nothing, or the lines after it. -/
def endLine? (cs : List Char) : Option (List Char) :=
  match skipComment (cs.dropWhile isGap) with
  | [] => some []
  | '\n' :: rest => some rest
  | _ => none

/-- Reads a key, an equals sign and a value. -/
def readEntry (cs : List Char) : Option ((String × Setting) × List Char) := do
  let (key, cs) ← readKey (cs.dropWhile isGap)
  match cs.dropWhile isGap with
  | '=' :: cs =>
    let (setting, cs) ← readSetting (cs.dropWhile isGap)
    return ((String.ofList key, setting), cs)
  | _ => none

/-- Reads the lines of a text, at most as many as `lines`. -/
def readLines : (lines : Nat) → List Char → Option (List (String × Setting))
  | 0, _ => none
  | _, [] => some []
  | lines + 1, cs =>
    match endLine? cs with
    | some rest => readLines lines rest
    | none => do
      let (entry, cs) ← readEntry cs
      let rest ← endLine? cs
      let entries ← readLines lines rest
      return entry :: entries

/-- The text without a byte order mark at its beginning. -/
def dropMark : List Char → List Char
  | '\ufeff' :: cs => cs
  | cs => cs

/-! ## Options -/

/-- Sets an option by key; none for an unknown key or a value of the wrong form. -/
def set? (o : Options) : String × Setting → Option Options
  | ("dump_dir", .text s) => some { o with dumpDir := some s }
  | ("type_name_infix", .text s) => some { o with nameInfix := s }
  | ("warn_on_unavailable_create", .flag b) => some { o with warns := b }
  | _ => none

/-- The options that entries set, if no key is repeated. -/
def ofEntries? (entries : List (String × Setting)) : Option Options :=
  if (entries.map Prod.fst).eraseDups.length = entries.length then
    entries.foldlM set? {}
  else none

def document? (text : String) : Option Options :=
  let cs := unifyLines (dropMark text.toList)
  (readLines (cs.length + 1) cs).bind ofEntries?

end RecordForge.Options
