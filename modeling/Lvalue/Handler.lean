import Lvalue.Script.Action
import Lvalue.Table

/-!
# Handlers

A handler gives a meaning to the properties that an object names. It is
installed on that object or on one of its prototypes, serves some of the three
operations, and leaves the others to the handlers further up the chain.
-/

namespace Lvalue

/-- A handler. -/
structure Handler where
  /-- The name under which the handler is recorded. -/
  label : String
  service : Service Action

/-- A handler serves an operation. -/
def Service.serves {α : Type} : Service α → Operation → Bool
  | .scripted hooks, op => (hooks.on op).isSome
  | .itself, op => op = .read
  | .entries, _ => true
  | .inert, _ => false

/-- The handler of functions: a function read as a property is itself. -/
def Handler.functions : Handler := ⟨"%function%", .itself⟩

/-- The handler of maps: a map read as a property is the entry for the base. -/
def Handler.maps : Handler := ⟨"%map%", .entries⟩

/-- The handlers that are installed, each on its object. -/
abbrev Registry := Table ObjectId Handler

/-- The handlers of the objects on a chain, nearest first. -/
def Registry.handlers (r : Registry) (chain : List ObjectId) : List Handler :=
  chain.filterMap r.get?

/-- The nearest handler on a chain that serves the operation. -/
def Registry.server? (r : Registry) (chain : List ObjectId) (op : Operation) : Option Handler :=
  (r.handlers chain).find? (·.service.serves op)

end Lvalue
