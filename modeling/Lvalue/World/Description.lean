import Lvalue.Number.Notation
import Lvalue.Text.Quoted
import Lvalue.World

/-!
# Descriptions

How values and objects are put into words. A value has a *text*, which is what a
program shows, and a *description*, which tells its type too and names objects
by their labels. In a journal, values and objects are *shown* as pictures.
-/

namespace Lvalue

namespace World

/-- The description of an object: its class, or its name if it is a function, and its
    label. -/
def describeObject (w : World) (o : ObjectId) : Prose :=
  match w.heap.kind? o with
  | some (.function f) => ("Function(" ++ Text.quoted f.name ++ ")#" : String) ++ Prose.label o
  | _ => (w.heap.className o ++ "#" : String) ++ Prose.label o

/-- The description of an object that is being changed, when nothing can be told of it. -/
def describeBusy (o : ObjectId) : Prose := "Object#" ++ Prose.label o

/-- The description of a value. -/
def describe (w : World) : Value → Prose
  | .undefined => "Undefined"
  | .null => "Null"
  | .bool b => "Bool(" ++ toString b ++ ")"
  | .number x => "Number(" ++ x.text .detailed ++ ")"
  | .text a => "String(" ++ Text.quoted (Spelling.full a) ++ ")"
  | .symbol s => "Symbol(" ++ s.text ++ ")"
  | .object o => ("Object(" : Prose) ++ w.describeObject o ++ ")"

/-- The text of a value. -/
def display (w : World) (spelling : Spelling) : Value → String
  | .undefined => "undefined"
  | .null => "null"
  | .bool b => toString b
  | .number x => x.text .plain
  | .text a => spelling a
  | .symbol s => s.text
  | .object o => "[object " ++ w.heap.className o ++ "]"

/-- The picture of a value. At most `n` wrappers are looked into, one inside another. -/
def showUpTo (w : World) : Nat → Value → Shown
  | _, .undefined => .undefined
  | _, .null => .null
  | _, .bool b => .bool b
  | _, .number x => .number x
  | _, .text a => .text (Spelling.full a)
  | _, .symbol s => .symbol s
  | n, .object o =>
    match n, w.heap.kind? o with
    | n + 1, some (.wrapper v) => .object o (w.heap.className o) (some (w.showUpTo n v)) none
    | _, some (.function f) => .object o (w.heap.className o) none (some f.name)
    | _, _ => .object o (w.heap.className o) none none

/-- The picture of a value. A wrapper is younger than what it wraps, so no more of them
    are one inside another than there are objects. -/
def picture (w : World) (v : Value) : Shown := w.showUpTo w.heap.objects.size v

/-- The picture of an object. -/
def pictureObject (w : World) (o : ObjectId) : Shown := w.picture (.object o)

/-- The picture of a property. -/
def pictureProperty (w : World) (p : Property) : ShownProperty where
  slot :=
    match p.slot with
    | .data v writable => .data (w.picture v) writable
    | .accessor getter setter =>
      .accessor (getter.map w.pictureObject) (setter.map w.pictureObject)
  enumerable := p.enumerable
  configurable := p.configurable

/-- The picture of a failure. -/
def report (w : World) (e : Error Value) : Report where
  cause := e
  thrown := e.thrown?.map w.picture
  message :=
    match e.thrown? with
    | some (.text _) => none
    | _ => some (e.message w.describe)

end World

end Lvalue
