import Lvalue.Value

/-!
# Properties

A property holds a value, or a pair of functions that read and write in its
stead. A property that is not configurable is locked: from then on only the
value of a writable one may change, or its being writable end
(`Property.accepts`).
-/

namespace Lvalue

/-- What a property consists of. -/
inductive Slot where
  | data (value : Value) (writable : Bool)
  | accessor (getter setter : Option ObjectId)
  deriving DecidableEq, Repr

/-- A property of an object. -/
structure Property where
  slot : Slot
  enumerable : Bool := true
  configurable : Bool := true
  deriving DecidableEq, Repr

namespace Property

/-- A property that holds `v` and may be changed in every way. -/
def plain (v : Value) : Property := { slot := .data v true }

/-- A property that holds `v` for ever. -/
def frozen (v : Value) : Property := { slot := .data v false, configurable := false }

/-- The property may be replaced by `new`. -/
def accepts (old new : Property) : Bool :=
  old.configurable ||
    match old.slot, new.slot with
    | .data _ true, .data _ _ => !new.configurable && new.enumerable == old.enumerable
    | _, _ => false

/-- The objects that the property holds. -/
def objects (p : Property) : List ObjectId :=
  match p.slot with
  | .data v _ => v.object?.toList
  | .accessor getter setter => getter.toList ++ setter.toList

end Property

end Lvalue
