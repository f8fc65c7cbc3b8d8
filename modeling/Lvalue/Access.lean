import Lvalue.Eval

/-!
# Access to properties

Reading, writing and deleting the properties of objects, and calling functions.
A property is looked for along the chain of an object, and the first one found
decides: a value is read and shadowed, a pair of functions is called. These
functions see as `this` the *receiver*, which need not be the object where the
lookup began, and it is the receiver that gets the property that a write makes.

How the body of a function runs is left open: all here is said for every
`Caller`.
-/

namespace Lvalue

/-- The way in which functions run: the result for a value of `this` and arguments. -/
abbrev Caller := NativeFunction → (this : Value) → (args : List Value) → Eval Value

/-- Calls an object. -/
def call (run : Caller) (f : ObjectId) (this : Value) (args : List Value) : Eval Value := do
  match ← Eval.see (·.heap.kind? f) with
  | some (.function g) => run g this args
  | _ => Eval.fault (.notCallable (← Eval.see (·.heap.className f)) f)

/-- The value of the property `k` that `o` has or inherits. -/
def getProperty (run : Caller) (o : ObjectId) (k : Key) (receiver : Value) : Eval Value := do
  match ← Eval.see (·.heap.lookup o k) with
  | some (_, { slot := .data v _, .. }) => return v
  | some (holder, { slot := .accessor (some getter) setter, .. }) =>
    let next ← Eval.see (·.heap.prototype? holder)
    let ids := [o, holder, getter] ++ setter.toList ++ next.toList
    Eval.holding (receiver :: ids.map .object) (call run getter receiver [])
  | some (_, { slot := .accessor none _, .. }) | none => return .undefined

/-- Where no property on the chain stands against it, the property `k` of the receiver
    itself becomes `v`. Returns whether it did. -/
def assignOwn (k : Key) (v receiver : Value) : Eval Bool := do
  match receiver with
  | .object target =>
    match ← Eval.see (·.heap.own? target k) with
    | some { slot := .accessor .., .. } | some { slot := .data _ false, .. } => return false
    | some old => define target { old with slot := .data v true }
    | none => define target (.plain v)
  | _ => return false
where
  /-- Defines the property and returns whether the object had room for it. -/
  define (target : ObjectId) (p : Property) : Eval Bool := do
    let admitted ← Eval.see (·.heap.admits target k p)
    Eval.onHeap (·.define target k p)
    return admitted

/-- Writes `v` to the property `k` that `o` has or inherits, for the receiver. Returns
    whether the write was accepted; a function that writes always accepts. -/
def setProperty (run : Caller) (o : ObjectId) (k : Key) (v receiver : Value) : Eval Bool := do
  match ← Eval.see (·.heap.lookup o k) with
  | some (_, { slot := .data _ false, .. }) | some (_, { slot := .accessor _ none, .. }) =>
    return false
  | some (_, { slot := .accessor getter (some setter), .. }) =>
    let held := v :: receiver :: (setter :: getter.toList).map Value.object
    let _ ← Eval.holding held (call run setter receiver [v])
    return true
  | some (_, { slot := .data _ true, .. }) | none => assignOwn k v receiver

/-- Deletes the property `k` of `o` itself. Returns whether it is gone. -/
def deleteProperty (o : ObjectId) (k : Key) : Eval Bool := do
  let released ← Eval.see (·.heap.releases o k)
  Eval.onHeap (·.delete o k)
  return released

/-- The key of the length of a text. -/
def lengthKey : Key := .text (.text "length")

/-- A new wrapper around a primitive value. A text has its length, in characters, as a
    property that never changes. -/
def wrapper (v : Value) (prototype : ObjectId) : Object :=
  let properties : Table Key Property :=
    match v with
    | .text a => Table.empty.insert lengthKey (.frozen (.number (.ofNat (Spelling.full a).length)))
    | _ => ∅
  { kind := .wrapper v, prototype := some prototype, properties }

/-- The object that stands for a value: the object itself, or a new wrapper. -/
def toObject (v : Value) : Eval ObjectId := do
  match v with
  | .object o => return o
  | _ =>
    match Intrinsic.ofPrimitive v with
    | some i => Eval.alloc (wrapper v i.id)
    | none => Eval.fault (.noObject (← Eval.see (·.heap.typeName v)))

end Lvalue
