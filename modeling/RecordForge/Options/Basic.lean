import RecordForge.Text.Blank

/-!
# Options

What a registry can be told: where reports go, the middle part of the names of implementations,
and whether it warns of classes that cannot be created. The middle part must have a character and
no blank. How a document sets them is for a reader of documents to say.
-/

namespace RecordForge

structure Options where
  dumpDir : Option String := none
  nameInfix : String := "MappingExtension"
  warns : Bool := true
deriving DecidableEq, Repr

inductive OptionsError where
  /-- The file cannot be read as text. -/
  | unreadable
  /-- The text is no options text. -/
  | malformed
  | emptyInfix
  | blankInInfix (nameInfix : String)
deriving DecidableEq, Repr

def OptionsError.message? : OptionsError → Option String
  | unreadable | malformed => none
  | emptyInfix => some "Invalid configuration: type_name_infix must not be empty"
  | blankInInfix nameInfix =>
    some s!"Invalid configuration: type_name_infix '{nameInfix}' must not contain whitespace"

namespace Options

/-- The options, if the middle part of names is admissible. -/
def validate (o : Options) : Except OptionsError Options :=
  if o.nameInfix.isEmpty then .error .emptyInfix
  else if o.nameInfix.toList.any Text.isBlank then .error (.blankInInfix o.nameInfix)
  else .ok o

section
variable (document? : String → Option Options)

/-- Reads options from text, with a reader of documents. -/
def ofText (text : String) : Except OptionsError Options :=
  match document? text with
  | some o => o.validate
  | none => .error .malformed

/-- Reads options from the content of a file, if there is a file. -/
def ofFile (content : Option ByteArray) : Except OptionsError Options :=
  match content.bind String.fromUTF8? with
  | some text => ofText document? text
  | none => .error .unreadable

end

end Options

end RecordForge
