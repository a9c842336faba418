import RecordForge.Report.Basic
import RecordForge.Text.Json

/-!
# Report files

A report is kept as a JSON document in a file named for the implementation. Files stand in a
*directory*, which may be missing altogether, or be in the way so that nothing can be written.
A name with a slash is no name within a directory, and a name has at most 255 bytes.
-/

namespace RecordForge

namespace Report

open Text

/-- An entry that is left out if it is missing. -/
def optional (name : String) (value : Option String) : List (String × Doc) :=
  value.toList.map fun v => (name, .text v)

def lines (xs : List String) : Doc := .list (xs.map .text)

def fieldDoc (f : FieldReport) : Doc :=
  .record [("slot", .number f.slot), ("name", .text f.name), ("ty", .text f.type)]

/-- A property as an entry list; without a wrapper member or a setter it has no such entry. -/
def propertyDoc (p : PropertyReport) : Doc :=
  .record <|
    [("name", .text p.name), ("ty", .text p.type), ("field", .text p.field)] ++
      optional "wrapper_member" p.wrapperMember ++ [("getter", .text p.getter)] ++
      optional "setter" p.setter

/-- The entries of a report. -/
def entries (r : Report) : List (String × Doc) :=
  [("type_name", .text r.typeName), ("original", .text r.implements),
    ("serializable", .flag r.isSerializable), ("fields", .list (r.fields.map fieldDoc)),
    ("properties", .list (r.properties.map propertyDoc)),
    ("default_constructor", lines r.defaultConstructor),
    ("factory_constructor", lines r.factoryConstructor),
    ("init_routine", lines r.initRoutine), ("created_members", lines r.owned)]

def fileName (r : Report) : String := r.typeName ++ ".MapDescriptor.json"

/-- The content of a report's file: the abstract class, the implementation and what the descriptor
can do, then the entries of the report. -/
def fileText (r : Report) (type product : String) (canCreate canCreateWith : Bool) : String :=
  (Doc.record ([("original", .text type), ("mapped", .text product),
    ("can_create", .flag canCreate), ("can_create_with", .flag canCreateWith)] ++ r.entries)).toText

end Report

/-- Where report files go. -/
inductive Directory where
  | missing
  | blocked
  | writable (files : List (String × String))
deriving DecidableEq, Repr

namespace Directory

def isWanted : Directory → Bool
  | missing => false
  | _ => true

/-- Whether a file can have a name. -/
def isFileName (name : String) : Bool :=
  !name.toList.any (fun c => c == '/' || c == '\x00') && name.utf8ByteSize ≤ 255

/-- Writes a file in place of one of the same name; none if it cannot be written. -/
def write (d : Directory) (name text : String) : Option Directory :=
  match d with
  | writable files =>
    if isFileName name then
      some (.writable (files.filter (fun f => f.1 != name) ++ [(name, text)]))
    else none
  | missing | blocked => none

def files : Directory → List (String × String)
  | writable files => files.mergeSort fun a b => !(b.1 < a.1)
  | missing | blocked => []

end Directory

end RecordForge
