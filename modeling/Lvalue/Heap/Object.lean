import Lvalue.Heap.Entries
import Lvalue.Heap.Property
import Lvalue.Script.Command

/-!
# Objects

An object has properties, a prototype from which it inherits more, and a kind:
what it is beside a bearer of properties. An object holds others alive: its
prototype, what its properties consist of, and what it holds for what it is.
-/

namespace Lvalue

/-- A function: the name it is known by and the body that a call runs. -/
structure NativeFunction where
  name : String
  body : Script Command

/-- What an object is. -/
inductive Kind where
  | ordinary
  | function (f : NativeFunction)
  | map (entries : Entries)
  | weakMap (entries : WeakEntries)
  /-- A value in the guise of an object. -/
  | wrapper (v : Value)

/-- The name of the class of an object. -/
def Kind.className : Kind → String
  | ordinary => "Object"
  | function _ => "Function"
  | map _ => "Map"
  | weakMap _ => "WeakMap"
  | wrapper (.bool _) => "Boolean"
  | wrapper (.number _) => "Number"
  | wrapper (.text _) => "String"
  | wrapper (.symbol _) => "Symbol"
  | wrapper _ => "Object"

/-- The objects that an object holds for what it is. -/
def Kind.objects : Kind → List ObjectId
  | ordinary | function _ => []
  | map entries => entries.objects
  | weakMap entries => entries.objects
  | wrapper v => v.object?.toList

/-- An object. -/
structure Object where
  kind : Kind := .ordinary
  prototype : Option ObjectId
  properties : Table Key Property := ∅
  /-- The object may get more properties and another prototype. -/
  extensible : Bool := true

namespace Object

/-- The object can be called. -/
def isCallable (o : Object) : Bool :=
  match o.kind with
  | .function _ => true
  | _ => false

/-- The objects that the object holds. -/
def objects (o : Object) : List ObjectId :=
  o.kind.objects ++ o.prototype.toList ++ o.properties.values.flatMap Property.objects

/-- The object has room for the property `p` at `k`: a new property needs an
    extensible object, and an old one has to accept its successor. -/
def admits (o : Object) (k : Key) (p : Property) : Bool :=
  match o.properties.get? k with
  | none => o.extensible
  | some old => old.accepts p

/-- The object with the property `p` at `k`, where it admits it. -/
def define (o : Object) (k : Key) (p : Property) : Object :=
  if o.admits k p then { o with properties := o.properties.insert k p } else o

@[simp]
theorem kind_define (o : Object) (k : Key) (p : Property) : (o.define k p).kind = o.kind := by
  rw [define]
  split <;> rfl

/-- The property at `k` can be deleted, or there is none. -/
def releases (o : Object) (k : Key) : Bool :=
  match o.properties.get? k with
  | none => true
  | some p => p.configurable

/-- The object without a property at `k`, where it releases it. -/
def delete (o : Object) (k : Key) : Object :=
  if o.releases k then { o with properties := o.properties.erase k } else o

@[simp]
theorem kind_delete (o : Object) (k : Key) : (o.delete k).kind = o.kind := by
  rw [delete]
  split <;> rfl

end Object

end Lvalue
