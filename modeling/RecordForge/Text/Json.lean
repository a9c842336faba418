/-!
# JSON documents

A document of text, numbers, truth values, lists and records, and how it is written: one item to a
line, each level two blanks further in, a list without items on one line. A record keeps the order
of its entries and may have a name twice.
-/

namespace RecordForge.Text

inductive Doc where
  | text (s : String)
  | number (n : Nat)
  | flag (b : Bool)
  | list (items : List Doc)
  | record (entries : List (String × Doc))

namespace Doc

/-- How one character stands in a string: quotes, backslashes and controls are escaped. -/
def escape (c : Char) : List Char :=
  if c = '"' then ['\\', '"']
  else if c = '\\' then ['\\', '\\']
  else if c = '\x08' then ['\\', 'b']
  else if c = '\t' then ['\\', 't']
  else if c = '\n' then ['\\', 'n']
  else if c = '\x0c' then ['\\', 'f']
  else if c = '\r' then ['\\', 'r']
  else if c.toNat < 0x20 then
    let ds := Nat.toDigits 16 c.toNat
    ['\\', 'u'] ++ List.replicate (4 - ds.length) '0' ++ ds
  else [c]

def quoted (s : String) : String :=
  String.ofList (['"'] ++ s.toList.flatMap escape ++ ['"'])

/-- A new line at a level. -/
def newLine (level : Nat) : String :=
  String.ofList ('\n' :: List.replicate (2 * level) ' ')

/-- Written items between an opening and a closing bracket, one to a line. -/
def enclose (level : Nat) (opening closing : String) (items : List String) : String :=
  if items.isEmpty then opening ++ closing
  else
    opening ++ newLine (level + 1) ++ ("," ++ newLine (level + 1)).intercalate items ++
      newLine level ++ closing

mutual

/-- A document as it is written at a level. -/
def render (level : Nat) : Doc → String
  | text s => quoted s
  | number n => toString n
  | flag b => if b then "true" else "false"
  | list items => enclose level "[" "]" (renderItems (level + 1) items)
  | record entries => enclose level "\x7b" "\x7d" (renderEntries (level + 1) entries)

def renderItems (level : Nat) : List Doc → List String
  | [] => []
  | d :: ds => render level d :: renderItems level ds

def renderEntries (level : Nat) : List (String × Doc) → List String
  | [] => []
  | (name, d) :: es => (quoted name ++ ": " ++ render level d) :: renderEntries level es

end

/-- The whole document. -/
def toText (d : Doc) : String := d.render 0

end Doc

end RecordForge.Text
