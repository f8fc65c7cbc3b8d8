import Lvalue.Session

/-!
# Changes

However much an evaluation does, it does it in small steps, and there are only a
few kinds of them (`Change`). What every change keeps (`Stable`) is kept by every
evaluation, so that an invariant of whole runs needs no more than a look at the changes.

No change touches the depth or the settings. The depth goes up and down with the
handlers that run, and for them alone.

A session gets its references in a few ways only: a plain value, a name that is looked up, a
property with a key, and an abstract reference of which base and name are given or still to be
evaluated (`Reference.Built`). A change that makes a reference known makes one known that was
built (`World.Acquires`).
-/

namespace Lvalue

/-- A single change of a world. -/
inductive Change : World → World → Prop
  | handles (w : World) (handles : Handles) : Change w { w with handles }
  | journal (w : World) (journal : List Entry) : Change w { w with journal }
  | nextSymbol (w : World) (nextSymbol : Nat) : Change w { w with nextSymbol }
  | scopes (w : World) (scopes : Scopes) : Change w { w with scopes }
  | registry (w : World) (registry : Registry) : Change w { w with registry }
  | alloc (w : World) (new : Object) : Change w { w with heap := (w.heap.alloc new).2 }
  | setPrototype (w : World) (o : ObjectId) (prototype : Option ObjectId) :
    Change w { w with heap := w.heap.setPrototype o prototype }
  | preventExtensions (w : World) (o : ObjectId) :
    Change w { w with heap := w.heap.preventExtensions o }
  | define (w : World) (o : ObjectId) (k : Key) (p : Property) :
    Change w { w with heap := w.heap.define o k p }
  | delete (w : World) (o : ObjectId) (k : Key) : Change w { w with heap := w.heap.delete o k }
  | entries {w : World} {m : ObjectId} {old : Entries} (h : w.heap.kind? m = some (.map old))
    (new : Entries) : Change w { w with heap := w.heap.setKind m (.map new) }
  | weakEntries {w : World} {m : ObjectId} {old : WeakEntries}
    (h : w.heap.kind? m = some (.weakMap old)) (new : WeakEntries) :
    Change w { w with heap := w.heap.setKind m (.weakMap new) }
  /-- What nothing holds any more goes. -/
  | settle (w : World) : Change w w.settle

/-- A property of worlds that every change keeps. -/
def Stable (V : World → Prop) : Prop := ∀ ⦃w w' : World⦄, Change w w' → V w → V w'

/-- No change touches the settings. -/
theorem Change.config_eq {w w' : World} (h : Change w w') : w'.config = w.config := by
  cases h <;> rfl

/-- No change touches the depth. -/
theorem Change.depth_eq {w w' : World} (h : Change w w') : w'.depth = w.depth := by
  cases h <;> rfl

/-! ## References that are built -/

/-- The reference was built in one of the ways there are, in some world. -/
inductive Reference.Built : Reference → Prop
  | value (v : Value) : Built (.value v)
  | binding (w : World) (s : ScopeId) (x : Atom) (strict : Bool) :
    Built (.binding (w.scopes.resolve s x) x strict)
  | member (base : Value) (k : Key) (this : Option Value) (strict : Bool) :
    Built (.member base k this strict)
  | abstract {base name : Value} {strict : Bool} {r : Reference} {w : World}
    (h : ((abstractReference base name strict).on w).1 = .ok r) : Built r
  /-- Anything may evaluate the two sides. -/
  | evaluated {run : Runner} {base name : Eval Reference} {strict : Bool} {r : Reference}
    {w : World} (h : ((evaluateAbstract run base name strict).on w).1 = .ok r) : Built r

/-- All that is known as a reference was known by the same name before, or has been built. -/
def World.Acquires (w w' : World) : Prop :=
  ∀ name r, w'.handles.references.get? name = some r →
    w.handles.references.get? name = some r ∨ r.Built

namespace World.Acquires

variable {w w' w'' : World}

/-- Where the known references are the same, none is acquired. -/
theorem of_eq (same : w'.handles.references = w.handles.references) : w.Acquires w' :=
  fun _ _ known => .inl (by rwa [same] at known)

/-- What comes in step by step comes in. -/
theorem trans (h : w.Acquires w') (h' : w'.Acquires w'') : w.Acquires w'' :=
  fun name r known => (h' name r known).elim (h name r) .inr

end World.Acquires

/-! ## Evaluations that come to an end -/

namespace Eval

variable {α : Type}

/-- However the evaluation ends, it leaves the world as it was. -/
def Looks (act : Eval α) : Prop := ∀ w : World, (act.on w).2 = w

/-- The evaluation has all the budget that it needs. -/
def Lasts (act : Eval α) : Prop := ∀ w : World, (act.on w).1 ≠ .error .exhausted

end Eval

end Lvalue
