import Lvalue.Script.Command

/-!
# Actions

What the body of a handler, or a session, can do: all that a function can, and
on top of it make references, resolve them, and install handlers.
-/

namespace Lvalue

/-- The bodies of a handler, one for each operation that it serves. -/
structure Hooks (α : Type) where
  read : Option (Script α) := none
  write : Option (Script α) := none
  delete : Option (Script α) := none

/-- The body that serves an operation. -/
def Hooks.on {α : Type} (h : Hooks α) : Operation → Option (Script α)
  | .read => h.read
  | .write => h.write
  | .delete => h.delete

/-- What an evaluation ends in: a reference by its name, or a plain value. -/
inductive Yield where
  | reference (name : String)
  | value (v : Expr)

/-- One side of an abstract reference that is still to be evaluated. -/
structure Producer (α : Type) where
  steps : List (Step α) := []
  yields : Yield

/-- What a handler does. -/
inductive Service (α : Type) where
  /-- Runs a body for each operation that has one. -/
  | scripted (hooks : Hooks α)
  /-- Reads as the name itself. -/
  | itself
  /-- Keeps a value for each receiver, as an entry of the name, a map. -/
  | entries
  /-- Serves no operation. -/
  | inert

/-- What a handler can do. -/
inductive Action where
  | command (c : Command)
  | fail (cause : Error Expr)
  -- References
  | refValue (v : Expr) (into : String)
  | refBinding (scope : String) (name : Expr) (strict : Bool) (into : String)
  | refMember (base key : Expr) (this : Option Expr) (strict : Bool) (into : String)
  | refAbstract (base name : Expr) (strict : Bool) (into : String)
  /-- An abstract reference whose base is evaluated before its name. -/
  | refEvaluated (base name : Producer Action) (strict : Bool) (into : String)
  | getValue (reference : String) (into : Option String)
  | putValue (reference : String) (v : Expr)
  | deleteReference (reference : String)
  -- Handlers
  | install (target : Expr) (label : String) (service : Service Action)
  /-- Installs the handler of `source` on `target` too. -/
  | share (source target : Expr)
  | installStandard
  | uninstall (target : Expr)
  | installed (target : Expr)
  | handlersFor (name : Expr)
  | registrySize
  | describeHooks (hooks : Hooks Action)
  | config

end Lvalue
