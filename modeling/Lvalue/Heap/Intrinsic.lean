import Lvalue.Heap

/-!
# Intrinsic objects

The prototypes that are there from the start: one from which all objects
inherit, and one below it for each kind of object and for each type of
primitive value that has properties.
-/

namespace Lvalue

/-- The prototypes that are there from the start. -/
inductive Intrinsic where
  | object
  | function
  | map
  | weakMap
  | boolean
  | number
  | string
  | symbol
  deriving DecidableEq, Repr

namespace Intrinsic

/-- All intrinsic objects, in the order in which they are made. -/
def all : List Intrinsic := [object, function, map, weakMap, boolean, number, string, symbol]

/-- The identity of an intrinsic object. -/
def id (i : Intrinsic) : ObjectId := ⟨i.ctorIdx⟩

/-- The name of an intrinsic object. -/
def name : Intrinsic → String
  | object => "%Object%"
  | function => "%Function%"
  | map => "%Map%"
  | weakMap => "%WeakMap%"
  | boolean => "%Boolean%"
  | number => "%Number%"
  | string => "%String%"
  | symbol => "%Symbol%"

/-- The intrinsic object with the identity. -/
def ofId? (o : ObjectId) : Option Intrinsic := all.find? (·.id = o)

/-- The intrinsic object with the name. -/
def ofName? (s : String) : Option Intrinsic := all.find? (·.name = s)

/-- The prototype of an intrinsic object. -/
def prototype : Intrinsic → Option ObjectId
  | object => none
  | _ => some object.id

/-- The prototype of the objects of a kind. A wrapper has none of its own. -/
def ofKind : Kind → Option Intrinsic
  | .ordinary => some object
  | .function _ => some function
  | .map _ => some map
  | .weakMap _ => some weakMap
  | .wrapper _ => none

/-- The prototype whose properties a primitive value has. -/
def ofPrimitive : Value → Option Intrinsic
  | .bool _ => some boolean
  | .number _ => some number
  | .text _ => some string
  | .symbol _ => some symbol
  | _ => none

end Intrinsic

/-- The heap with the intrinsic objects alone. -/
def Heap.initial : Heap :=
  Intrinsic.all.foldl (fun h i => (h.alloc { prototype := i.prototype }).2) {}

end Lvalue
