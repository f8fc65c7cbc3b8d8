import Lvalue.Fault

/-!
# References

A reference is a place that is not looked at yet: a name in a scope, or a
property of a base. Reading, writing and deleting through it come later
(`Lvalue.Resolution`), and as often as wanted; the reference itself never
changes. A plain value counts as a reference too, one that can only be read.

The property of an *abstract* reference is named by an object. What it means is
up to the handlers of that object.
-/

namespace Lvalue

/-- A reference. -/
inductive Reference where
  /-- A plain value. -/
  | value (v : Value)
  /-- A name in the scope where it was found. Without one it was bound nowhere. -/
  | binding (scope : Option ScopeId) (name : Atom) (strict : Bool)
  /-- The property `key` of `base`, seen by its functions as one of `this` if there
      is one, and of the base otherwise. -/
  | member (base : Value) (key : Key) (this : Option Value) (strict : Bool)
  /-- The property of `base` that an object names. -/
  | abstractMember (base : Value) (name : ObjectId) (strict : Bool)
  deriving DecidableEq, Repr, Inhabited

namespace Reference

/-- The reference is not a plain value. -/
def isReference : Reference → Bool
  | value _ => false
  | _ => true

/-- The reference is to a property. -/
def isProperty : Reference → Bool
  | member .. | abstractMember .. => true
  | _ => false

/-- The reference is to a name that was bound nowhere. -/
def isUnresolvable : Reference → Bool
  | binding none _ _ => true
  | _ => false

/-- The property is named by an object. -/
def isAbstract : Reference → Bool
  | abstractMember .. => true
  | _ => false

/-- A rejection is to be reported. -/
def isStrict : Reference → Bool
  | value _ => false
  | binding _ _ strict | member _ _ _ strict | abstractMember _ _ strict => strict

/-- The property is to be seen as one of another value than the base. -/
def overridesReceiver (base : Value) (this : Option Value) : Bool :=
  this.any fun t => !t.same base

/-- The values that the reference holds. -/
def values : Reference → List Value
  | value v => [v]
  | binding .. => []
  | member base _ this _ => base :: this.toList
  | abstractMember base name _ => [base, .object name]

/-- The scope that the reference holds. -/
def scope? : Reference → Option ScopeId
  | binding scope _ _ => scope
  | _ => none

end Reference

end Lvalue
