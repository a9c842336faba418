import RecordForge.Ty

/-!
# Routines

The language in which the bodies of constructors, accessors, receivers and static initializers are
written. A routine is a list of actions; an action evaluates terms and has one effect. There are no
loops and no branches: a routine runs to its end, to a `give`, or to a failure.
-/

namespace RecordForge

/-- What an action computes with. -/
inductive Term where
  | value (v : Value)
  /-- An argument of the body; a setter has the new value as its first. Null if there is none. -/
  | argument (index : Nat)
  | field (name : String)
  | property (name : String)
  | propertyOf (target : Term) (name : String)
  | this
  | className
  /-- How many parameters the carrier in an argument holds; -1 without any. -/
  | parameterCount (argument : Nat)
  /-- A parameter of the carrier in an argument; null if there is none. -/
  | parameter (argument index : Nat)
  /-- A new object of a type, by a constructor; without a type, of the class at hand. -/
  | construct (type : Option Ty) (constructor : Nat) (args : List Term)
  /-- The object that owns the field whose value receives property info. -/
  | owner
  /-- The declared type of the property that is told to a receiver, by name. -/
  | infoType
  /-- The name of the property that is told to a receiver. -/
  | infoName

/-- A step of a routine. -/
inductive Action where
  | setField (name : String) (t : Term)
  | setProperty (name : String) (t : Term)
  | setPropertyOf (target : Term) (name : String) (t : Term)
  /-- Ends the routine with a result. -/
  | give (t : Term)
  | throw (message : String)
  /-- Fails for the first `count` times that this step runs. Steps are told apart by their site. -/
  | throwTimes (site count : Nat) (message : String)
  /-- Breaks off; the reason need not be text. -/
  | panic (reason : Option String)
  | log (t : Term)
  | chain (type : Ty) (constructor : Nat) (args : List Term)
  /-- Replaces the parameters of the carrier in an argument; without a carrier it has no effect. -/
  | setParameters (argument : Nat) (values : Option (List Term))

/-- The body of a constructor, accessor, receiver or static initializer. -/
abbrev Routine := List Action

end RecordForge
