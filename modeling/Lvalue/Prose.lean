import Lvalue.Value

/-!
# Texts that name objects

Messages and descriptions may speak of objects. An object has no name of its
own, so such a text leaves a mark where the object's label belongs, and whoever
writes the text out chooses the labels.
-/

namespace Lvalue

/-- A piece of a text: words, or the label of an object. -/
inductive Fragment where
  | words (s : String)
  | label (o : ObjectId)
  deriving DecidableEq, Repr

/-- A text in which objects are still to be labelled. -/
structure Prose where
  fragments : List Fragment
  deriving DecidableEq, Repr

namespace Prose

instance : Coe String Prose := ⟨fun s => ⟨[.words s]⟩⟩

instance : Append Prose := ⟨fun p q => ⟨p.fragments ++ q.fragments⟩⟩

/-- The label of `o`. -/
def label (o : ObjectId) : Prose := ⟨[.label o]⟩

end Prose

end Lvalue
