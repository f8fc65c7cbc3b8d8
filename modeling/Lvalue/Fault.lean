import Lvalue.Prose

/-!
# Failures

The causes for which an operation fails, with the message of each. A `Fault`
comes from objects and scopes, an `Error` from resolving references, and every
fault is an error too. Both are kept apart because a function can only end in a
fault.

The parameter `ν` is what a program throws: a value, and in scripts the
expression for it.
-/

namespace Lvalue

/-- What can be done through a reference. -/
inductive Operation where
  | read
  | write
  | delete
  deriving DecidableEq, Repr

/-- The word for an operation. -/
def Operation.word : Operation → String
  | .read => "read"
  | .write => "write"
  | .delete => "delete"

/-- A failure of objects or scopes. -/
inductive Fault (ν : Type) where
  /-- A value is of no use here, for the reason given. -/
  | unfit (reason : String)
  /-- A value of the type named has no properties. -/
  | noObject (typeName : String)
  /-- The object, of the class named, is called and is no function. -/
  | notCallable (className : String) (o : ObjectId)
  /-- The name has no binding. -/
  | unbound (name : String)
  /-- The binding is used before it has a value. -/
  | uninitialised (name : String)
  /-- The binding keeps its value for ever. -/
  | constant (name : String)
  /-- The program threw `v`. -/
  | thrown (v : ν)
  deriving DecidableEq

/-- A failure to resolve a reference. -/
inductive Error (ν : Type) where
  /-- The name is bound in no scope. -/
  | unbound (name : String)
  /-- A plain value is written to. -/
  | invalidTarget
  /-- A strict write was rejected. -/
  | readOnly (key : String)
  /-- A strict delete was refused. -/
  | undeletable (key : String)
  /-- A delete through a reference with a receiver of its own. -/
  | superDelete (name : String)
  /-- No handler of the name, an object of the class named, serves the operation. -/
  | missing (op : Operation) (className : String)
  /-- A value is of no use here, for the reason given. -/
  | unfit (reason : String)
  /-- The operation on the property goes to a base without properties. -/
  | nullishBase (op : Operation) (name : Prose) (typeName : String)
  /-- An abstract reference to a base without properties. -/
  | abstractBase (typeName : String)
  /-- An abstract reference by a name that is no object. -/
  | abstractName (typeName : String)
  /-- The handler for maps serves a name of another class. -/
  | noMap (className : String)
  /-- More than `limit` handlers would run inside one another. -/
  | tooDeep (limit : UInt32)
  /-- A handler threw `v`. -/
  | thrown (v : ν)
  /-- A failure of objects or scopes. -/
  | fault (f : Fault ν)
  deriving DecidableEq

namespace Fault

variable {ν : Type}

/-- The value that is thrown. -/
def thrown? : Fault ν → Option ν
  | thrown v => some v
  | _ => none

/-- The message, given the description of what is thrown. -/
def message (describe : ν → Prose) : Fault ν → Prose
  | unfit reason => "TypeError: " ++ reason
  | noObject typeName => "TypeError: cannot convert " ++ typeName ++ " to object"
  | notCallable className o =>
      ("TypeError: " ++ className ++ "#" : String) ++ Prose.label o ++ " is not a function"
  | unbound name => "ReferenceError: " ++ name ++ " is not defined"
  | uninitialised name => "ReferenceError: cannot access '" ++ name ++ "' before initialization"
  | constant name => "TypeError: assignment to constant binding '" ++ name ++ "'"
  | thrown v => "uncaught exception: " ++ describe v

end Fault

namespace Error

variable {ν : Type}

/-- The value that is thrown. -/
def thrown? : Error ν → Option ν
  | thrown v => some v
  | fault f => f.thrown?
  | _ => none

/-- The message, given the description of what is thrown. -/
def message (describe : ν → Prose) : Error ν → Prose
  | unbound name => "ReferenceError: " ++ name ++ " is not defined"
  | invalidTarget => "SyntaxError: invalid assignment target"
  | readOnly key => "TypeError: cannot assign to read only property '" ++ key ++ "'"
  | undeletable key => "TypeError: cannot delete property '" ++ key ++ "'"
  | superDelete name =>
      "ReferenceError: unsupported reference to 'super' when deleting '" ++ name ++ "'"
  | missing op className =>
      "TypeError: " ++ className ++ " does not implement reference " ++ op.word
  | unfit reason => "TypeError: " ++ reason
  | nullishBase op name typeName =>
      ("TypeError: cannot " ++ op.word ++ " '" : String) ++ name ++
        ("' of " ++ typeName : String)
  | abstractBase typeName =>
      "TypeError: cannot create an abstract reference with " ++ typeName ++ " base"
  | abstractName typeName =>
      "TypeError: abstract reference name must be an object, got " ++ typeName
  | noMap className => "TypeError: map reference handler called on " ++ className
  | tooDeep limit => "RangeError: reference dispatch exceeded depth " ++ toString limit.toNat
  | thrown v => "uncaught exception: " ++ describe v
  | fault f => f.message describe

end Error

end Lvalue
